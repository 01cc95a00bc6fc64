import Integratio.Listener.Threads
import Integratio.Listener.Proof.Ownership

/-!
# The threads and the system

What the threads of the listener do, one small step at a time (`threads`), beside `system`, in
which a `forwardPacket` is one step.

* `threads_deliver`: in every interleaving each sniffed packet is dispatched once, to a responder
  with its stream or without a stream, and each responder processes what was dispatched to it, in
  that order.
* `threads_system`: a run is a run of `system` as long as no responder that matters to the packet
  in dispatch changes its stream behind the dispatcher's back (`Disturbs`).
* `threads_owner`: a connection belongs to one responder in every interleaving, disturbed or not.
-/

namespace Integratio

open Actors Transducer Machine

variable {conf : Nat → Config} {s s' : Threads} {a : ThreadAct}
  {es : List (Entry Machine Packet Effect)} {T : List ThreadStep}

/-! ## One step -/

theorem system_congr {d d' : Dispatcher} {ws ws' : List Worker}
    (h : ∀ k : Nat, ws[k]?.map (Worker.responder d k) = ws'[k]?.map (Worker.responder d' k)) :
    (⟨d, ws⟩ : Threads).system = (⟨d', ws'⟩ : Threads).system := by
  refine List.ext_getElem? fun k => ?_
  rw [system_getElem?, system_getElem?]
  exact h k

theorem responder_pending {d d' : Dispatcher} (h : ∀ k, d.pending k = d'.pending k) (k : Nat) :
    Worker.responder d k = Worker.responder d' k := by
  funext w
  simp only [Worker.responder, h]

theorem pending_adding (pkt : Packet) (i k : Nat) :
    (Dispatcher.adding pkt i).pending k = if i = k then [pkt] else [] := rfl

/-- A step of the threads is a step of the system that routes as the log says, or it changes
nothing of the system. -/
theorem turn_system (h : threads conf s a = .ok (s', es)) :
    es = [] ∧ s'.system = s.system ∨
      ∃ e, es = [e] ∧ step (fun _ _ => e.target) (fun k => (conf k).startListen) s.system e.act =
        .ok (s'.system, [e]) := by
  obtain ⟨d, ws⟩ := s
  -- a change of the dispatcher alone
  have hsame : ∀ {d' : Dispatcher}, (∀ k, d'.pending k = d.pending k) →
      (⟨d', ws⟩ : Threads).system = (⟨d, ws⟩ : Threads).system := by
    intro d' hd
    exact system_congr fun k => by simp only [responder_pending hd]
  cases threads_turns h with
  | sniff pkt hd => exact .inl ⟨rfl, hsame fun k => by simp_all [Dispatcher.pending]⟩
  | passStream pkt i w hd hw hid =>
    exact .inl ⟨rfl, hsame fun k => by simp_all [Dispatcher.pending]⟩
  | second pkt i hd hi => exact .inl ⟨rfl, hsame fun k => by simp_all [Dispatcher.pending]⟩
  | passFree pkt i w hd hw hid =>
    exact .inl ⟨rfl, hsame fun k => by simp_all [Dispatcher.pending]⟩
  | found pkt i w hw hd =>
    refine .inr ⟨.routed pkt (some i), rfl, ?_⟩
    have hpend : ∀ k, d.pending k = [] := by
      intro k
      rcases hd with ⟨hd, -⟩ | ⟨hd, -⟩ <;> simp_all [Dispatcher.pending]
    simp only [step, Entry.target, Entry.act]
    refine congrArg (fun l => Except.ok (l, _)) (List.ext_getElem? fun k => ?_)
    rw [push, List.getElem?_modify, system_getElem?, system_getElem?]
    cases hk : ws[k]? with
    | none => simp
    | some w' =>
      by_cases hik : i = k <;> simp [Worker.responder, pending_adding, hpend, hik]
  | refused pkt i hd hi =>
    refine .inr ⟨.routed pkt none, rfl, ?_⟩
    simp only [step, Entry.target, Entry.act]
    have he : (⟨.sniffing, ws⟩ : Threads).system = (⟨d, ws⟩ : Threads).system :=
      hsame fun k => by simp_all [Dispatcher.pending]
    rw [he]
  | add pkt k hd =>
    refine .inl ⟨rfl, system_congr fun j => ?_⟩
    obtain rfl : d = .adding pkt k := hd
    rw [List.getElem?_modify]
    by_cases hkj : k = j
    · cases ws[j]? <;> simp [Worker.responder, Dispatcher.pending, hkj]
    · cases ws[j]? <;> simp [Worker.responder, Dispatcher.pending, hkj]
  | remove k m p q hk =>
    refine .inl ⟨rfl, system_congr fun j => ?_⟩
    by_cases hkj : k = j
    · subst hkj
      have hlt := (List.getElem?_eq_some_iff.1 hk).1
      rw [List.getElem?_set_self hlt, hk]
      simp [Worker.responder]
    · rw [List.getElem?_set_ne hkj]
  | process k m p q m' o hk hs =>
    refine .inr ⟨.served k ⟨m, p, m', o⟩, rfl, ?_⟩
    have hk' : (⟨d, ws⟩ : Threads).system[k]? = some ⟨m, p :: (q ++ d.pending k)⟩ := by
      rw [system_getElem?, hk]
      rfl
    simp only [step, Entry.act, hk', hs]
    refine congrArg (fun l => Except.ok (l, _)) (List.ext_getElem? fun j => ?_)
    rw [system_getElem?]
    by_cases hkj : k = j
    · subst hkj
      have hlt := (List.getElem?_eq_some_iff.1 hk).1
      rw [List.getElem?_set_self (by simpa [Threads.system] using hlt),
        List.getElem?_set_self hlt]
      rfl
    · rw [List.getElem?_set_ne hkj, List.getElem?_set_ne hkj, system_getElem?]

/-! ## Delivery -/

/-- The packets that `pktCallback` is called with. -/
def sniffed (acts : List ThreadAct) : List Packet :=
  acts.filterMap fun
    | .sniff pkt => some pkt
    | _ => none

/-- The packets that were dispatched, also those that were refused. -/
def dispatched (es : List (Entry Machine Packet Effect)) : List Packet :=
  arrivals (es.map Entry.act)

/-- The look that routes a packet to a responder finds it with the packet's stream or free. -/
def Fits (t : ThreadStep) : Prop :=
  ∀ (pkt : Packet) (k : Nat), .routed pkt (some k) ∈ t.out → ∃ w, t.src.responders[k]? = some w ∧
    (w.machine.getId = pkt.tcp.sport.toNat ∨ w.machine.getId = -1)

theorem turn_fits (h : threads conf s a = .ok (s', es)) : Fits ⟨s, a, s', es⟩ := by
  intro pkt k hm
  cases threads_turns h with
  | found pkt' i w hw hd =>
    cases List.mem_singleton.1 hm
    exact ⟨w, hw, hd.imp And.right And.right⟩
  | refused | process => simp at hm
  | _ => cases hm

/-- A packet is dispatched before the next is sniffed. -/
theorem turn_dispatched (h : threads conf s a = .ok (s', es)) :
    s.dispatcher.scanned ++ sniffed [a] = dispatched es ++ s'.dispatcher.scanned := by
  cases threads_turns h with
  | sniff pkt hd =>
    rw [hd]
    rfl
  | passStream pkt i w hd | second pkt i hd | passFree pkt i w hd =>
    rw [hd]
    rfl
  | found pkt i w hw hd =>
    rcases hd with ⟨hd, -⟩ | ⟨hd, -⟩ <;>
    · rw [hd]
      rfl
  | refused pkt i hd =>
    rw [hd]
    rfl
  | add pkt k hd =>
    rw [hd]
    rfl
  | remove | process =>
    rw [show sniffed [_] = [] from rfl, List.append_nil]
    rfl

/-- **A responder's thread is a responder alone**, fed with what is dispatched to it. -/
theorem threads_alone {k : Nat} {r : Responder} (hrun : Run (threads conf) s T s')
    (hr : s.system[k]? = some r) : ∃ r', s'.system[k]? = some r' ∧
      r.queue ++ inbox k (outputs T) = inputs (served k (outputs T)) ++ r'.queue ∧
      Run (conf k).step r.state (served k (outputs T)) r'.state := by
  suffices h : ∃ r', s'.system[k]? = some r' ∧
      r.queue ++ inbox k (outputs T) = inputs (served k (outputs T)) ++ r'.queue ∧
      Run (conf k).startListen r.state (served k (outputs T)) r'.state by
    obtain ⟨r', hr', hq, hal⟩ := h
    exact ⟨r', hr', hq, hal.of_ok fun _ _ _ hs => startListen_ok hs⟩
  induction hrun with
  | nil => exact ⟨r, hr, by simp, .nil⟩
  | snoc _ hs ih =>
    obtain ⟨r₁, hr₁, hq, hal⟩ := ih
    simp only [outputs_append, outputs_cons, outputs_nil, List.append_nil]
    rcases turn_system hs with ⟨rfl, he⟩ | ⟨e, rfl, hst⟩
    · exact ⟨r₁, he ▸ hr₁, by simpa using hq, by simpa using hal⟩
    · exact fifo_step hq hal hr₁ hst

/-- What was sniffed was dispatched, but for the packet that is looked after. -/
theorem dispatched_run (hrun : Run (threads conf) s T s') :
    s.dispatcher.scanned ++ sniffed (inputs T) =
      dispatched (outputs T) ++ s'.dispatcher.scanned := by
  induction hrun with
  | nil => simp [sniffed, dispatched]
  | snoc _ hs ih =>
    have hd := turn_dispatched hs
    simp only [inputs_append, inputs_cons, inputs_nil, outputs_append, outputs_cons, outputs_nil,
      List.append_nil]
    rw [sniffed, List.filterMap_append, ← List.append_assoc]
    rw [sniffed] at ih hd
    rw [ih, List.append_assoc, hd, dispatched, dispatched, dispatched, List.map_append,
      arrivals_append, List.append_assoc]

/-- **Every packet is dispatched once and processed in order**, whatever the interleaving. -/
theorem threads_deliver (hrun : Run (threads conf) s T s') :
    s.dispatcher.scanned ++ sniffed (inputs T) =
      dispatched (outputs T) ++ s'.dispatcher.scanned ∧
    (∀ t ∈ T, Fits t) ∧
    ∀ (k : Nat) (r : Responder), s.system[k]? = some r → ∃ r', s'.system[k]? = some r' ∧
      r.queue ++ inbox k (outputs T) = inputs (served k (outputs T)) ++ r'.queue ∧
      Run (conf k).step r.state (served k (outputs T)) r'.state :=
  ⟨dispatched_run hrun, fun _ ht => turn_fits (hrun.step_mem ht),
    fun _ _ hr => threads_alone hrun hr⟩

/-! ## Undisturbed runs -/

/-- The dispatcher misses that the `k`-th responder gets the stream `id`: in the first loop it has
passed the responder and looks for this stream; in the second loop it is past looking for it, or has
passed the responder and looks for a free one. -/
def Dispatcher.Misses (d : Dispatcher) (k : Nat) (id : Int) : Prop :=
  match d with
  | .stream pkt i => k < i ∧ id = pkt.tcp.sport.toNat
  | .free pkt i => id = pkt.tcp.sport.toNat ∨ k < i ∧ id = -1
  | .sniffing | .adding .. => False

instance (d : Dispatcher) (k : Nat) (id : Int) : Decidable (d.Misses k id) :=
  match d with
  | .stream .. => inferInstanceAs (Decidable (_ ∧ _))
  | .free .. => inferInstanceAs (Decidable (_ ∨ _ ∧ _))
  | .sniffing | .adding .. => inferInstanceAs (Decidable False)

/-- The act gives a responder a stream, which `ws` has then, and the dispatcher misses it. -/
def ThreadAct.Disturbs (d : Dispatcher) (ws : List Worker) (a : ThreadAct) : Prop :=
  match a with
  | .process k => ∃ w ∈ ws[k]?, d.Misses k w.machine.getId
  | .sniff _ | .look | .remove _ => False

instance (d : Dispatcher) (ws : List Worker) (a : ThreadAct) : Decidable (a.Disturbs d ws) :=
  match a with
  | .process k => inferInstanceAs (Decidable (∃ w ∈ ws[k]?, d.Misses k w.machine.getId))
  | .sniff _ | .look | .remove _ => inferInstanceAs (Decidable False)

def Disturbs (t : ThreadStep) : Prop := t.inp.Disturbs t.src.dispatcher t.dst.responders

instance (t : ThreadStep) : Decidable (Disturbs t) :=
  inferInstanceAs (Decidable (t.inp.Disturbs t.src.dispatcher t.dst.responders))

/-- The dispatcher has missed nothing. -/
def Threads.UpToDate (s : Threads) : Prop :=
  ∀ (k : Nat) (w : Worker), s.responders[k]? = some w → ¬ s.dispatcher.Misses k w.machine.getId

theorem states_system (s : Threads) : states s.system = s.responders.map (·.machine) := by
  refine List.ext_getElem? fun k => ?_
  rw [states, List.getElem?_map, system_getElem?, List.getElem?_map]
  cases s.responders[k]? <;> rfl

theorem route_found {pkt : Packet} {i : Nat} {w : Worker} (h : s.UpToDate)
    (hw : s.responders[i]? = some w)
    (hd : s.dispatcher = .stream pkt i ∧ w.machine.getId = pkt.tcp.sport.toNat ∨
      s.dispatcher = .free pkt i ∧ w.machine.getId = -1) :
    route (states s.system) pkt = some i := by
  obtain ⟨hlt, rfl⟩ := List.getElem?_eq_some_iff.1 hw
  rw [states_system]
  rcases hd with ⟨hd, hid⟩ | ⟨hd, hid⟩
  · have hfind : (s.responders.map (·.machine)).findIdx? (·.getId = (pkt.tcp.sport.toNat : Int)) =
        some i := by
      rw [List.findIdx?_eq_some_iff_getElem]
      refine ⟨by simpa using hlt, by simpa using hid, fun j hj hc => ?_⟩
      have hj' : j < s.responders.length := by omega
      refine h j _ (List.getElem?_eq_getElem hj') ?_
      rw [hd]
      exact ⟨hj, by simpa using hc⟩
    rw [route, hfind]
  · rw [route_of_none, List.findIdx?_eq_some_iff_getElem]
    · refine ⟨by simpa using hlt, by simpa using hid, fun j hj hc => ?_⟩
      have hj' : j < s.responders.length := by omega
      refine h j _ (List.getElem?_eq_getElem hj') ?_
      rw [hd]
      exact .inr ⟨hj, by simpa using hc⟩
    · intro m hm he
      obtain ⟨w, hw', rfl⟩ := List.mem_map.1 hm
      obtain ⟨j, hj⟩ := List.mem_iff_getElem?.1 hw'
      refine h j w hj ?_
      rw [hd]
      exact .inl he

theorem route_refused {pkt : Packet} {i : Nat} (h : s.UpToDate) (hd : s.dispatcher = .free pkt i)
    (hi : s.responders[i]? = none) : route (states s.system) pkt = none := by
  have hi' : s.responders.length ≤ i := List.getElem?_eq_none_iff.1 hi
  have hmiss : ∀ m ∈ states s.system, m.getId ≠ pkt.tcp.sport.toNat ∧ m.getId ≠ -1 := by
    intro m hm
    rw [states_system] at hm
    obtain ⟨w, hw, rfl⟩ := List.mem_map.1 hm
    obtain ⟨j, hj⟩ := List.mem_iff_getElem?.1 hw
    have hlt := (List.getElem?_eq_some_iff.1 hj).1
    have hm := h j w hj
    rw [hd] at hm
    exact ⟨fun he => hm (.inl he), fun he => hm (.inr ⟨by omega, he⟩)⟩
  rw [route_of_none fun m hm => (hmiss m hm).1, List.findIdx?_eq_none_iff]
  intro m hm
  simpa using (hmiss m hm).2

/-- What the dispatcher has seen stays so. -/
theorem upToDate_step (h : s.UpToDate) (hs : threads conf s a = .ok (s', es))
    (hcalm : ¬ Disturbs ⟨s, a, s', es⟩) : s'.UpToDate := by
  intro k w hw hm
  cases threads_turns hs with
  | sniff pkt hd => exact absurd hm.1 (Nat.not_lt_zero k)
  | passStream pkt i w' hd hi hid =>
    obtain ⟨hk, he⟩ := hm
    rcases Nat.lt_succ_iff_lt_or_eq.1 hk with hk | rfl
    · exact h k w hw (by rw [hd]; exact ⟨hk, he⟩)
    · obtain rfl := Option.some.inj (hi.symm.trans hw)
      exact hid he
  | second pkt i hd hi =>
    rcases hm with he | ⟨hk, -⟩
    · have hlt := (List.getElem?_eq_some_iff.1 hw).1
      have hi' : s.responders.length ≤ i := List.getElem?_eq_none_iff.1 hi
      exact h k w hw (by rw [hd]; exact ⟨Nat.lt_of_lt_of_le hlt hi', he⟩)
    · exact absurd hk (Nat.not_lt_zero k)
  | passFree pkt i w' hd hi hid =>
    rcases hm with he | ⟨hk, he⟩
    · exact h k w hw (by rw [hd]; exact .inl he)
    · rcases Nat.lt_succ_iff_lt_or_eq.1 hk with hk | rfl
      · exact h k w hw (by rw [hd]; exact .inr ⟨hk, he⟩)
      · obtain rfl := Option.some.inj (hi.symm.trans hw)
        exact hid he
  | found | refused | add => exact hm
  | remove j m p q hj =>
    by_cases hkj : j = k
    · subst hkj
      have hlt := (List.getElem?_eq_some_iff.1 hj).1
      rw [List.getElem?_set_self hlt] at hw
      cases hw
      exact h j _ hj hm
    · rw [List.getElem?_set_ne hkj] at hw
      exact h k w hw hm
  | process j m p q m' o hj =>
    by_cases hkj : j = k
    · subst hkj
      exact hcalm ⟨w, hw, hm⟩
    · rw [List.getElem?_set_ne hkj] at hw
      exact h k w hw hm

/-- **An undisturbed run of the threads is a run of the system**, with the same log and the same
responders. -/
theorem threads_system {n : Nat} (hrun : Run (threads conf) (freshThreads n) T s)
    (hcalm : ∀ t ∈ T, ¬ Disturbs t) :
    ∃ T', Run (system conf) (fresh n) T' s.system ∧ outputs T' = outputs T := by
  have h0 : (freshThreads n).UpToDate := fun _ _ _ hm => hm
  rw [← system_freshThreads]
  refine (hrun.simulates Threads.system Threads.UpToDate (fun t => ¬ Disturbs t) ?_ h0 hcalm).2
  intro ⟨s, a, s', es⟩ hup hs hc
  replace hs : threads conf s a = .ok (s', es) := hs
  refine ⟨upToDate_step hup hs hc, ?_⟩
  rcases turn_system hs with h | ⟨e, rfl, hst⟩
  · exact .inl h
  -- the log says what `forwardPacket` would do
  refine .inr ⟨e.act, ?_⟩
  have hroute : ∀ pkt k, e = .routed pkt k → route (states s.system) pkt = k := by
    rintro pkt k rfl
    generalize hes : [Entry.routed pkt k] = es at hs
    cases threads_turns hs with
    | found pkt i w hw hd =>
      cases hes
      exact route_found hup hw hd
    | refused pkt i hd hi =>
      cases hes
      exact route_refused hup hd hi
    | _ => cases hes
  cases e with
  | routed pkt k =>
    rw [← hst]
    simp only [system, step, Entry.act, hroute pkt k rfl, Entry.target]
  | served k t => exact hst

/-- The SYN of one client is processed while the dispatcher looks for a responder for another. -/
def calmActs : List ThreadAct :=
  [.sniff ((sampleClient 40000).seg TCP.SYN 1000 0 []), .look, .look, .look, .look, .look,
    .remove 0, .sniff ((sampleClient 40001).seg TCP.SYN 5 0 []), .look, .process 0, .look, .look,
    .look, .look, .look, .remove 1, .process 1]

def calmRun : List ThreadStep :=
  (exec (threads fun _ => {}) (freshThreads 2) calmActs).toOption.getD []

theorem threads_system_calm :
    ∃ T', Run (system fun _ => {}) (fresh 2) T' (final (freshThreads 2) calmRun).system ∧
      outputs T' = outputs calmRun := by
  have he : exec (threads fun _ => {}) (freshThreads 2) calmActs = .ok calmRun := rfl
  have hcalm : ∀ t ∈ calmRun, ¬ Disturbs t := by decide
  exact threads_system (Run.of_exec he).1 hcalm

/-! ## Ownership -/

/-- Responder `k` has the stream `port`, alone, and the dispatcher will not overlook it. -/
structure Threads.Owns (port : BitVec 16) (k : Nat) (s : Threads) : Prop where
  system : Integratio.Owns port k s.system
  stream : ∀ pkt i, s.dispatcher = .stream pkt i → pkt.tcp.sport = port → i ≤ k
  free : ∀ pkt i, s.dispatcher = .free pkt i → pkt.tcp.sport ≠ port

variable {port : BitVec 16} {k : Nat}

theorem Owns.push {rs : List Responder} {i : Nat} {p : Packet} (h : Owns port k rs)
    (hi : i = k ↔ p.tcp.sport = port) : Owns port k (push rs i p) := by
  obtain ⟨r, hr, hid⟩ := h.bound
  -- a responder after the push, from the one before
  have hback : ∀ (j : Nat) (r' : Responder), (Actors.push rs i p)[j]? = some r' →
      ∃ r₀, rs[j]? = some r₀ ∧ r'.state = r₀.state ∧
        ∀ q ∈ r'.queue, q ∈ r₀.queue ∨ i = j ∧ q = p := by
    intro j r' hj
    rw [Actors.push, List.getElem?_modify] at hj
    obtain ⟨r₀, hr₀, rfl⟩ := Option.map_eq_some_iff.1 hj
    refine ⟨r₀, hr₀, ?_, fun q hq => ?_⟩
    · split <;> rfl
    · split at hq
      · rename_i hij
        exact (List.mem_append.1 hq).imp_right fun hq => ⟨hij, List.mem_singleton.1 hq⟩
      · exact .inl hq
  refine ⟨⟨_, getElem?_push i p hr, ?_⟩, fun j r' hj hr' => ?_, fun r' hr' q hq => ?_,
    fun j r' hj hr' q hq => ?_⟩
  · split <;> exact hid
  · obtain ⟨r₀, hr₀, he, -⟩ := hback j r' hr'
    rw [he]
    exact h.others j r₀ hj hr₀
  · obtain ⟨r₀, hr₀, -, hm⟩ := hback k r' hr'
    rcases hm q hq with hq | ⟨hik, rfl⟩
    · exact h.own r₀ hr₀ q hq
    · exact hi.1 hik
  · obtain ⟨r₀, hr₀, -, hm⟩ := hback j r' hr'
    rcases hm q hq with hq | ⟨hij, rfl⟩
    · exact h.foreign j r₀ hj hr₀ q hq
    · exact fun he => hj (hij ▸ hi.2 he)

theorem Threads.Owns.getId (h : s.Owns port k) {i : Nat} {w : Worker}
    (hw : s.responders[i]? = some w) : i = k ↔ w.machine.getId = port.toNat := by
  have hw' : s.system[i]? = some (w.responder s.dispatcher i) := by rw [system_getElem?, hw]; rfl
  refine ⟨fun he => ?_, fun he => ?_⟩
  · subst he
    obtain ⟨r, hr, hid⟩ := h.system.bound
    obtain rfl := Option.some.inj (hr.symm.trans hw')
    exact hid
  · by_contra hne
    exact h.system.others i _ hne hw' he

/-- What is routed to the owner are the packets of its port. -/
theorem Threads.Owns.found (h : s.Owns port k) {pkt : Packet} {i : Nat} {w : Worker}
    (hw : s.responders[i]? = some w)
    (hd : s.dispatcher = .stream pkt i ∧ w.machine.getId = pkt.tcp.sport.toNat ∨
      s.dispatcher = .free pkt i ∧ w.machine.getId = -1) : i = k ↔ pkt.tcp.sport = port := by
  rw [h.getId hw]
  rcases hd with ⟨-, hid⟩ | ⟨hd, hid⟩
  · rw [hid]
    exact ⟨sport_inj, fun he => by rw [he]⟩
  · have hne := h.free pkt i hd
    rw [hid]
    refine ⟨fun he => ?_, fun he => absurd he hne⟩
    omega

theorem Threads.Owns.step (h : s.Owns port k) (hs : threads conf s a = .ok (s', es))
    (hno : ∀ t ∈ served k es, ¬ Returns t) :
    s'.Owns port k ∧ inbox k es = (dispatched es).filter (·.tcp.sport = port) := by
  obtain ⟨r, hr, hid⟩ := h.system.bound
  have hsys := turn_system hs
  cases threads_turns hs with
  | sniff pkt hd =>
    obtain ⟨-, he⟩ | ⟨e, he, -⟩ := hsys
    · refine ⟨⟨he ▸ h.system, fun pkt' i hd' hp => ?_, by simp⟩, rfl⟩
      cases hd'
      exact Nat.zero_le k
    · cases he
  | passStream pkt i w hd hw hne =>
    obtain ⟨-, he⟩ | ⟨e, he, -⟩ := hsys
    · refine ⟨⟨he ▸ h.system, fun pkt' i' hd' hp => ?_, by simp⟩, rfl⟩
      cases hd'
      -- the owner is not passed
      have hle := h.stream pkt i hd hp
      have hik : i ≠ k := fun hik => hne (by rw [(h.getId hw).1 hik, hp])
      omega
    · cases he
  | second pkt i hd hi =>
    obtain ⟨-, he⟩ | ⟨e, he, -⟩ := hsys
    · refine ⟨⟨he ▸ h.system, by simp, fun pkt' i' hd' hp => ?_⟩, rfl⟩
      cases hd'
      have hle := h.stream pkt i hd hp
      have hi' : s.responders.length ≤ i := List.getElem?_eq_none_iff.1 hi
      have hk := (List.getElem?_eq_some_iff.1 hr).1
      rw [Threads.system, List.length_mapIdx] at hk
      omega
    · cases he
  | passFree pkt i w hd hw hne =>
    obtain ⟨-, he⟩ | ⟨e, he, -⟩ := hsys
    · refine ⟨⟨he ▸ h.system, by simp, fun pkt' i' hd' => ?_⟩, rfl⟩
      cases hd'
      exact h.free pkt i hd
    · cases he
  | found pkt i w hw hd =>
    have hik := h.found hw hd
    obtain ⟨he, -⟩ | ⟨e, he, hst⟩ := hsys
    · cases he
    · cases he
      have hpush : push s.system i pkt = Threads.system _ := congrArg Prod.fst (Except.ok.inj hst)
      refine ⟨⟨?_, by simp, by simp⟩, ?_⟩
      · rw [← hpush]
        exact h.system.push hik
      · by_cases hp : pkt.tcp.sport = port
        · simp [hp, hik.2 hp, dispatched, Entry.act]
        · simp [hp, mt hik.1 hp, dispatched, Entry.act]
  | refused pkt i hd hi =>
    obtain ⟨he, -⟩ | ⟨e, he, hst⟩ := hsys
    · cases he
    · cases he
      have hsame : s.system = Threads.system _ := congrArg Prod.fst (Except.ok.inj hst)
      have hne := h.free pkt i hd
      refine ⟨⟨hsame ▸ h.system, by simp, by simp⟩,
        ?_⟩
      simp [hne, dispatched, Entry.act]
  | add pkt j hd =>
    obtain ⟨-, he⟩ | ⟨e, he, -⟩ := hsys
    · exact ⟨⟨he ▸ h.system, by simp, by simp⟩, rfl⟩
    · cases he
  | remove j m p q hj =>
    obtain ⟨-, he⟩ | ⟨e, he, -⟩ := hsys
    · exact ⟨⟨he ▸ h.system, h.stream, h.free⟩, rfl⟩
    · cases he
  | process j m p q m' o hj =>
    obtain ⟨he, -⟩ | ⟨e, he, hst⟩ := hsys
    · cases he
    · cases he
      have hst' : Integratio.system conf s.system (.serve j) = .ok (Threads.system _, _) := hst
      exact ⟨⟨h.system.step hst' hno, h.stream, h.free⟩, rfl⟩

theorem Threads.Owns.run (h : s.Owns port k) (hrun : Run (threads conf) s T s')
    (hno : ∀ t ∈ served k (outputs T), ¬ Returns t) :
    s'.Owns port k ∧
      inbox k (outputs T) = (dispatched (outputs T)).filter (·.tcp.sport = port) := by
  induction hrun with
  | nil => exact ⟨h, rfl⟩
  | snoc _ hs ih =>
    simp only [outputs_append, outputs_cons, outputs_nil, List.append_nil, served_append,
      List.mem_append] at hno ⊢
    obtain ⟨h₁, hin⟩ := ih fun t ht => hno t (.inl ht)
    obtain ⟨h₂, hin'⟩ := h₁.step hs fun t ht => hno t (.inr ht)
    refine ⟨h₂, ?_⟩
    rw [inbox_append, hin, hin', dispatched, dispatched, dispatched, List.map_append,
      arrivals_append, List.filter_append]

/-- **A connection belongs to one responder** in every interleaving of the threads, until the
responder returns to `LISTEN`. -/
theorem threads_owner {r : Responder} (h : s.Owns port k) (hr : s.system[k]? = some r)
    (hrun : Run (threads conf) s T s') (hno : ∀ t ∈ served k (outputs T), ¬ Returns t) :
    s'.Owns port k ∧ ∃ r', s'.system[k]? = some r' ∧
      r.queue ++ (dispatched (outputs T)).filter (·.tcp.sport = port) =
        inputs (served k (outputs T)) ++ r'.queue ∧
      Run (conf k).step r.state (served k (outputs T)) r'.state := by
  obtain ⟨hown, hin⟩ := h.run hrun hno
  rw [← hin]
  exact ⟨hown, threads_alone hrun hr⟩

/-! ## A run -/

/-- Responder 0 has the stream 40000, responder 1 is to process a SYN of port 40001. While it does,
a second SYN of port 40001 and then a packet of port 40000 are dispatched. -/
def racing : Threads :=
  ⟨.sniffing,
    [⟨start.opened {} ((sampleClient 40000).seg TCP.SYN 1000 0 []), [], none⟩,
      ⟨start, [], some ((sampleClient 40001).seg TCP.SYN 5 0 [])⟩]⟩

def racingActs : List ThreadAct :=
  [.sniff ((sampleClient 40001).seg TCP.SYN 6 0 []), .look, .process 1, .look, .look,
    .sniff ((sampleClient 40000).seg TCP.ACK 1001 31332 []), .look, .look, .remove 0, .process 0]

def racingRun : List ThreadStep :=
  (exec (threads fun _ => {}) racing racingActs).toOption.getD []

theorem racing_owns : racing.Owns 40000 0 := by
  refine ⟨⟨⟨_, rfl, rfl⟩, fun j r hj hr => ?_, fun r hr p hp => ?_, fun j r hj hr p hp => ?_⟩,
    by simp [racing], by simp [racing]⟩
  · match j with
    | 0 => exact absurd rfl hj
    | 1 => cases hr; decide
    | j + 2 => cases hr
  · cases hr
    cases hp
  · match j with
    | 0 => exact absurd rfl hj
    | 1 =>
      cases hr
      obtain rfl := List.mem_singleton.1 hp
      decide
    | j + 2 => cases hr

theorem racing_run : Run (threads fun _ => {}) racing racingRun (final racing racingRun) := by
  have he : exec (threads fun _ => {}) racing racingActs = .ok racingRun := rfl
  exact (Run.of_exec he).1

theorem threads_deliver_racing :
    racing.dispatcher.scanned ++ sniffed (inputs racingRun) =
      dispatched (outputs racingRun) ++ (final racing racingRun).dispatcher.scanned ∧
    (∀ t ∈ racingRun, Fits t) ∧
    ∀ (k : Nat) (r : Responder), racing.system[k]? = some r →
      ∃ r', (final racing racingRun).system[k]? = some r' ∧
        r.queue ++ inbox k (outputs racingRun) =
          inputs (served k (outputs racingRun)) ++ r'.queue ∧
        Run ({} : Config).step r.state (served k (outputs racingRun)) r'.state :=
  threads_deliver racing_run

theorem threads_owner_racing :
    (final racing racingRun).Owns 40000 0 ∧
    ∃ r', (final racing racingRun).system[0]? = some r' ∧
      [] ++ (dispatched (outputs racingRun)).filter (·.tcp.sport = 40000) =
        inputs (served 0 (outputs racingRun)) ++ r'.queue ∧
      Run ({} : Config).step (start.opened {} ((sampleClient 40000).seg TCP.SYN 1000 0 []))
        (served 0 (outputs racingRun)) r'.state := by
  have hstate : ∀ t ∈ served 0 (outputs racingRun), t.dst.state ≠ .listen := by decide
  exact threads_owner racing_owns rfl racing_run fun t ht hret => hstate t ht hret.2

end Integratio
