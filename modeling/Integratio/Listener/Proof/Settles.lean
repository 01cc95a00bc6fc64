import Integratio.Listener.Proof.Program

/-!
# The program comes to rest

Nothing that was sniffed is left lying. `Program.load` bounds the steps that the threads can take by
themselves (`load_step`): each looks on, goes on in a queue, takes the next packet, or ends the
process. When none can (`Program.Quiet`) and the process has not ended, the mutexes are free, the
queues are empty and the responders' threads sleep in `remove` (`Program.Quiet.rests`). When it has,
the processing of a packet failed (`Program.Blames`). `program_settles` says so of the log.
-/

namespace Integratio

open Actors Transducer
open Monitor (Move)

variable {conf : Nat → Config} {s s' : Program} {a : ProgramAct}
  {es : List (Entry Machine Packet Effect)} {T : List ProgramStep}

/-! ## The load -/

/-- The steps that an `add` takes at most, with the packet's removal and its processing. -/
def Thread.owed (w : Thread) : Nat :=
  if w.incomingQueue.call 0 = none then 16 else if w.incomingQueue.result 0 = none then 6 else 0

def Dispatcher.load (ws : List Thread) : Dispatcher → Nat
  | .sniffing => 0
  | .stream _ i => ws.length + 18 + (ws.length - i)
  | .free _ i => 17 + (ws.length - i)
  | .adding _ k => (ws[k]?.map Thread.owed).getD 0

/-- A packet is to be processed and then the next one removed. -/
def Thread.load (w : Thread) : Nat :=
  w.incomingQueue.fuel wqueue + 6 * (w.incomingQueue.data.length + w.worker.pkt.toList.length) +
    if w.pkt = none ∧ w.incomingQueue.call 1 = none then 5 else 0

def loads : List Thread → Nat
  | [] => 0
  | w :: ws => w.load + loads ws

/-- A process that has ended has nothing to do. -/
def Program.load : Program → Nat
  | ⟨_, _, some _⟩ => 0
  | ⟨d, ws, none⟩ => d.load ws + loads ws

theorem loads_set {ws : List Thread} {k : Nat} {w : Thread} (w' : Thread) (hk : ws[k]? = some w) :
    loads (ws.set k w') + w.load = loads ws + w'.load := by
  induction ws generalizing k with
  | nil => cases hk
  | cons v ws ih =>
    cases k with
    | zero =>
      obtain rfl := Option.some.inj hk
      simp only [List.set_cons_zero, loads]
      omega
    | succ k =>
      have := ih hk
      simp only [List.set_cons_succ, loads] at this ⊢
      omega

theorem load_fresh (n : Nat) : (freshProgram n).load = 5 * n := by
  have hw : (Thread.mk .start (Monitor.idle 2 []) none).load = 5 := rfl
  have hloads : ∀ n, loads (List.replicate n (Thread.mk .start (Monitor.idle 2 []) none)) =
      5 * n := by
    intro n
    induction n with
    | zero => rfl
    | succ n ih =>
      rw [List.replicate_succ, loads, hw, ih]
      omega
  rw [freshProgram, Program.load, hloads, Dispatcher.load, Nat.zero_add]

theorem load_adding {ws : List Thread} {k : Nat} {w : Thread} (pkt : Packet)
    (hk : ws[k]? = some w) : (Dispatcher.adding pkt k).load ws = w.owed := by
  rw [Dispatcher.load, hk, Option.map_some, Option.getD_some]

theorem load_set_same {ws : List Thread} {k : Nat} {w w' : Thread} (d : Dispatcher)
    (hk : ws[k]? = some w) (hw : w'.owed = w.owed) :
    d.load (ws.set k w') = d.load ws := by
  have hlt := (List.getElem?_eq_some_iff.1 hk).1
  cases d with
  | adding pkt j =>
    by_cases hjk : k = j
    · subst hjk
      rw [load_adding pkt hk, load_adding pkt (List.getElem?_set_self hlt), hw]
    · rw [Dispatcher.load, Dispatcher.load, List.getElem?_set_ne hjk]
  | _ => simp only [Dispatcher.load, List.length_set]

/-- What an act may add to the load, and the act itself. -/
def ProgramAct.cost (n : Nat) : ProgramAct → Nat
  | .sniff _ => 2 * n + 19
  | .queue _ _ .wake => 5
  | _ => 0

theorem load_queue {d : Dispatcher} {ws : List Thread} {k t n : Nat} {m : Machine} {q q' : Queue}
    {p : Option Packet} {mv : Move (WqueueCall Packet)}
    {es : List (Monitor.Event (WqueueCall Packet) (WqueueResult Packet))}
    (h : Thread.Wf d k ⟨m, q, p⟩) (hk : ws[k]? = some ⟨m, q, p⟩)
    (hc : Thread.calls d k ⟨m, q, p⟩ t mv = true)
    (hs : Monitor.step wqueue q (t, mv) = .ok (q', es)) :
    (⟨d.returns es, ws.set k (Thread.returns ⟨m, q', p⟩ es), none⟩ : Program).load + 1 ≤
      (⟨d, ws, none⟩ : Program).load + (ProgramAct.queue k t mv).cost n := by
  have hloads := loads_set (Thread.returns ⟨m, q', p⟩ es) hk
  have hafter : ∀ w : Thread, (ws.set k w)[k]? = some w := fun w =>
    List.getElem?_set_self (List.getElem?_eq_some_iff.1 hk).1
  have hown : mv.own = true → q'.fuel wqueue < q.fuel wqueue :=
    Monitor.fuel_step wqueue_counts h.sound hs
  cases h.uses hc hs with
  | callAdd pkt hd hn hdata hcall hres =>
    have hfuel : q'.fuel wqueue = q.fuel wqueue + 9 := Monitor.fuel_call hs
    have hn' : q.result 0 = none := Monitor.State.result_of_call hn
    have hload : (Thread.mk m q' p).load = (Thread.mk m q p).load + 9 := by
      simp [Thread.load, Thread.worker, Thread.removed, hdata, hres, hcall, hfuel]
      omega
    have howed : (Thread.mk m q p).owed = 16 := by simp [Thread.owed, hn]
    have howed' : (Thread.mk m q' p).owed = 6 := by simp [Thread.owed, hcall, hres, hn']
    subst hd
    simp only [Program.load, Dispatcher.returns, Thread.returns, load_adding _ hk,
      load_adding _ (hafter _)] at hloads ⊢
    omega
  | callRemove hp hn hdata hcall hres =>
    have hfuel : q'.fuel wqueue = q.fuel wqueue + 4 := Monitor.fuel_call hs
    have hload : (Thread.mk m q' p).load + 1 = (Thread.mk m q p).load := by
      simp [Thread.load, Thread.worker, Thread.removed, hdata, hres, hcall, hfuel, hp, hn]
      omega
    have howed : d.load (ws.set k ⟨m, q', p⟩) = d.load ws :=
      load_set_same d hk (by simp [Thread.owed, hcall, hres])
    simp only [Program.load, Dispatcher.returns, Thread.returns] at hloads ⊢
    omega
  | silent mv hmv hdata hcall hres =>
    have hload : (Thread.mk m q' p).load + q.fuel wqueue =
        (Thread.mk m q p).load + q'.fuel wqueue := by
      simp [Thread.load, Thread.worker, Thread.removed, hdata, hres, hcall]
      omega
    have howed : d.load (ws.set k ⟨m, q', p⟩) = d.load ws :=
      load_set_same d hk (by simp [Thread.owed, hcall, hres])
    simp only [Program.load, Dispatcher.returns, Thread.returns] at hloads ⊢
    cases mv with
    | call c => exact absurd rfl (hmv c)
    | go | signal u =>
      have := hown rfl
      omega
    | wake =>
      have hfuel : q'.fuel wqueue = q.fuel wqueue + 4 :=
        Monitor.fuel_wake wqueue_counts h.sound hs
      simp only [ProgramAct.cost]
      omega
  | add pkt hd hin hn hdata hcall hres =>
    have hfuel := hown rfl
    have hload : (Thread.mk m q' p).load + q.fuel wqueue =
        (Thread.mk m q p).load + q'.fuel wqueue + 6 := by
      simp [Thread.load, Thread.worker, Thread.removed, hdata, hres, hcall]
      omega
    have howed : (Thread.mk m q p).owed = 6 := by simp [Thread.owed, hin, hn]
    have howed' : (Thread.mk m q' p).owed = 0 := by simp [Thread.owed, hcall, hin, hres]
    subst hd
    simp only [Program.load, Dispatcher.returns, Thread.returns, load_adding _ hk,
      load_adding _ (hafter _)] at hloads ⊢
    omega
  | remove pkt hp hin hn hdata hcall hres =>
    have hfuel := hown rfl
    have hload : (Thread.mk m q' p).load + q.fuel wqueue =
        (Thread.mk m q p).load + q'.fuel wqueue := by
      simp [Thread.load, Thread.worker, Thread.removed, hdata, hres, hcall, hp, hn]
      omega
    have howed : d.load (ws.set k ⟨m, q', p⟩) = d.load ws :=
      load_set_same d hk (by simp [Thread.owed, hcall, hres])
    simp only [Program.load, Dispatcher.returns, Thread.returns] at hloads ⊢
    omega
  | added pkt r hd hin hn hdata hcall hres =>
    have hfuel := hown rfl
    have hload : (Thread.mk m q' p).load + q.fuel wqueue =
        (Thread.mk m q p).load + q'.fuel wqueue := by
      simp [Thread.load, Thread.worker, Thread.removed, hdata, hres, hcall]
      omega
    simp only [Program.load, Dispatcher.returns, Thread.returns, Dispatcher.load] at hloads ⊢
    omega
  | removed pkt hp hin hn hdata hcall hres =>
    have hfuel := hown rfl
    have hload : (Thread.mk m q' (some pkt)).load + q.fuel wqueue =
        (Thread.mk m q p).load + q'.fuel wqueue := by
      simp [Thread.load, Thread.worker, Thread.removed, hdata, hcall, hp, hin, hn]
      omega
    have howed : d.load (ws.set k ⟨m, q', some pkt⟩) = d.load ws :=
      load_set_same d hk (by simp [Thread.owed, hcall, hres])
    simp only [Program.load, Dispatcher.returns, Thread.returns] at hloads ⊢
    omega

/-- What the next look owes. -/
theorem load_look {s s' : Threads} {ws : List Thread} (hlook : threads conf s .look = .ok (s', es))
    (hws : s.responders = ws.map Thread.worker) (hd : ∀ pkt k, s.dispatcher ≠ .adding pkt k)
    (hcall : ∀ w ∈ ws, w.incomingQueue.call 0 = none) :
    s'.dispatcher.load ws + 1 ≤ s.dispatcher.load ws := by
  have hlen : s.responders.length = ws.length := by rw [hws, List.length_map]
  cases threads_turns hlook with
  | passStream pkt i w hd' hw hid =>
    have hlt := (List.getElem?_eq_some_iff.1 hw).1
    simp only [hd', Dispatcher.load]
    omega
  | second pkt i hd' hi =>
    have hle := List.getElem?_eq_none_iff.1 hi
    simp only [hd', Dispatcher.load]
    omega
  | passFree pkt i w hd' hw hid =>
    have hlt := (List.getElem?_eq_some_iff.1 hw).1
    simp only [hd', Dispatcher.load]
    omega
  | found pkt i w hw hd' =>
    have hlt := (List.getElem?_eq_some_iff.1 hw).1
    obtain ⟨v, hv⟩ : ∃ v, ws[i]? = some v := ⟨_, List.getElem?_eq_getElem (hlen ▸ hlt)⟩
    have howed : v.owed = 16 := by
      rw [Thread.owed, hcall v (List.mem_of_getElem? hv), if_pos rfl]
    rw [load_adding pkt hv, howed]
    rcases hd' with ⟨hd', -⟩ | ⟨hd', -⟩ <;>
    · simp only [hd', Dispatcher.load]
      omega
  | refused pkt i hd' hi =>
    simp only [hd', Dispatcher.load]
    omega
  | add pkt k hd' => exact absurd hd' (hd pkt k)

theorem Thread.Wf.load_process {d : Dispatcher} {k : Nat} {m : Machine} {q : Queue} {p : Packet}
    (h : Thread.Wf d k ⟨m, q, some p⟩) (m' : Machine) :
    (Thread.mk m' q none).load + 1 ≤ (Thread.mk m q (some p)).load := by
  have hrem : (Thread.mk m q (some p)).removed = none := h.not_removed (by simp)
  have hrem' : (Thread.mk m' q none).removed = none := hrem
  simp only [Thread.load, Thread.worker, hrem, hrem']
  simp
  split <;> omega

/-- A step of the threads by themselves lowers the load. -/
theorem load_step (h : s.Wf) (hs : program conf s a = .ok (s', es)) :
    s'.load + 1 ≤ s.load + a.cost s.responders.length := by
  have hproceeds := program_proceeds hs
  obtain ⟨d, ws, ended⟩ := s
  obtain rfl : ended = none := program_alive hs
  cases hproceeds with
  | sniff pkt hd =>
    obtain rfl : d = .sniffing := hd
    simp only [Program.load, Dispatcher.load, ProgramAct.cost]
    omega
  | look s₁ es hd hlook =>
    have hcall : ∀ w ∈ ws, w.incomingQueue.call 0 = none := by
      intro w hw
      obtain ⟨k, hk⟩ := List.mem_iff_getElem?.1 hw
      cases hc : w.incomingQueue.call 0 with
      | none => rfl
      | some c =>
        obtain ⟨pkt, -, he⟩ := (h.thread k w hk).adds c hc
        exact absurd he (hd pkt k)
    have := load_look hlook rfl hd hcall
    simp only [Program.load] at this ⊢
    omega
  | queue k t mv m q q' p es hk hc hq => exact load_queue (h.thread k _ hk) hk hc hq
  | process k m q p m' o hk hst =>
    have hloads : _ = loads ws + _ := loads_set ⟨m', q, none⟩ hk
    have howed : d.load (ws.set k ⟨m', q, none⟩) = d.load ws := load_set_same _ hk (by rfl)
    have hload := (h.thread k _ hk).load_process m'
    simp only [Program.load]
    omega
  | fail k m q p e hk hst =>
    have hloads : _ = loads ws + _ := loads_set ⟨m, q, none⟩ hk
    have hload := (h.thread k _ hk).load_process m
    simp only [Program.load]
    omega

/-- The wakeups without a signal. -/
def wakes (acts : List ProgramAct) : Nat :=
  acts.countP fun
    | .queue _ _ .wake => true
    | _ => false

theorem wakes_append (l l' : List ProgramAct) : wakes (l ++ l') = wakes l + wakes l' :=
  List.countP_append

theorem cost_eq (n : Nat) (a : ProgramAct) :
    a.cost n = (2 * n + 19) * (sniffs [a]).length + 5 * wakes [a] := by
  cases a with
  | queue k t mv => cases mv <;> rfl
  | _ => simp [ProgramAct.cost, sniffs, wakes]

theorem length_program (hs : program conf s a = .ok (s', es)) :
    s'.responders.length = s.responders.length := by
  cases program_proceeds hs <;> simp

theorem length_programs (hrun : Run (program conf) s T s') :
    s'.responders.length = s.responders.length :=
  hrun.inv (·.responders.length = s.responders.length)
    (fun _ _ _ _ hl hs => (length_program hs).trans hl) rfl

theorem load_run (h : s.Wf) (hrun : Run (program conf) s T s') :
    T.length + s'.load ≤ s.load +
      (2 * s.responders.length + 19) * (sniffs (inputs T)).length + 5 * wakes (inputs T) := by
  induction hrun with
  | nil =>
    rw [List.length_nil]
    omega
  | @snoc T s₁ s₂ a es hrun hs ih =>
    have hstep := load_step (h.run hrun) hs
    rw [length_programs hrun, cost_eq] at hstep
    simp only [inputs_append, inputs_cons, inputs_nil, sniffs_append, wakes_append,
      List.length_append, List.length_singleton, Nat.mul_add]
    omega

/-! ## At rest -/

/-- The steps of threads that go on by themselves. -/
def ProgramAct.own : ProgramAct → Bool
  | .sniff _ | .queue _ _ .wake => false
  | _ => true

theorem sniffs_own {acts : List ProgramAct} (h : ∀ a ∈ acts, a.own = true) : sniffs acts = [] := by
  refine List.filterMap_eq_nil_iff.2 fun a ha => ?_
  have := h a ha
  cases a with
  | sniff => cases this
  | _ => rfl

/-- No thread can go on by itself. -/
def Program.Quiet (conf : Nat → Config) (s : Program) : Prop :=
  ∀ a s' es, a.own = true → program conf s a ≠ .ok (s', es)

theorem exists_quiet (h : s.Wf) :
    ∃ T s', Run (program conf) s T s' ∧ (∀ a ∈ inputs T, a.own = true) ∧ s'.Quiet conf := by
  induction hn : s.load using Nat.strongRecOn generalizing s with
  | ind n ih =>
    by_cases hq : s.Quiet conf
    · exact ⟨[], s, .nil, by simp, hq⟩
    · obtain ⟨a, s₁, es, ha, hs⟩ : ∃ a s₁ es, a.own = true ∧ program conf s a = .ok (s₁, es) := by
        by_contra hno
        exact hq fun a s₁ es ha hs => hno ⟨a, s₁, es, ha, hs⟩
      have hcost : a.cost s.responders.length = 0 := by
        cases a with
        | sniff => cases ha
        | queue k t mv => cases mv <;> first | rfl | cases ha
        | _ => rfl
      have hlt : s₁.load < n := by
        have := load_step h hs
        omega
      obtain ⟨T, s', hrun, hT, hq'⟩ := ih _ hlt (h.step hs) rfl
      refine ⟨_, s', .cons hs hrun, fun b hb => ?_, hq'⟩
      rcases List.mem_cons.1 hb with rfl | hb
      · exact ha
      · exact hT b hb

variable (conf) in
theorem look_ok {s : Threads} (hd : s.dispatcher ≠ .sniffing) :
    ∃ s' es, threads conf s .look = .ok (s', es) := by
  obtain ⟨d, ws⟩ := s
  cases d with
  | sniffing => exact absurd rfl hd
  | stream pkt i =>
    cases hi : ws[i]? with
    | none => exact ⟨_, _, by simp only [threads, hi]; rfl⟩
    | some w =>
      by_cases hid : w.machine.getId = pkt.tcp.sport.toNat
      · exact ⟨_, _, by simp only [threads, hi, hid, if_true]; rfl⟩
      · exact ⟨_, _, by simp only [threads, hi, hid, if_false]; rfl⟩
  | free pkt i =>
    cases hi : ws[i]? with
    | none => exact ⟨_, _, by simp only [threads, hi]; rfl⟩
    | some w =>
      by_cases hid : w.machine.getId = -1
      · exact ⟨_, _, by simp only [threads, hi, hid, if_true]; rfl⟩
      · exact ⟨_, _, by simp only [threads, hi, hid, if_false]; rfl⟩
  | adding pkt k => exact ⟨_, _, rfl⟩

theorem call_ok {q : Queue} {t : Nat} (c : WqueueCall Packet) (ht : t < q.pcs.length)
    (hn : q.call t = none) : ∃ q' es, Monitor.step wqueue q (t, .call c) = .ok (q', es) := by
  have hp : q.pcs[t]? = some .idle := by
    rw [List.getElem?_eq_getElem ht] at *
    cases hpc : q.pcs[t] with
    | idle => rfl
    | _ => simp [Monitor.State.call, List.getElem?_eq_getElem ht, hpc, Monitor.Pc.call] at hn
  exact ⟨_, _, by simp only [Monitor.step, hp]; rfl⟩

/-- **At rest** nothing is left to do: the sniffer's thread sniffs, and the responders' threads
sleep over empty queues. -/
theorem Program.Quiet.rests (hq : s.Quiet conf) (h : s.Wf) (hend : s.ended = none) :
    s.dispatcher = .sniffing ∧ ∀ (k : Nat) (w : Thread), s.responders[k]? = some w →
      w.removed = none ∧ w.pkt = none ∧ w.incomingQueue.data = [] := by
  obtain ⟨d, ws, ended⟩ := s
  obtain rfl : ended = none := hend
  -- in a queue, who is not outside sleeps over nothing
  have hrest : ∀ (k : Nat) (w : Thread), ws[k]? = some w →
      ∀ t c, w.incomingQueue.call t = some c →
        w.incomingQueue.pcs[t]? = some (.asleep c) ∧ w.incomingQueue.data = [] := by
    intro k w hk t c hc
    have hwf := h.thread k w hk
    have hquiet : Monitor.Quiet wqueue w.incomingQueue := fun t q es =>
      ⟨fun hs => hq (.queue k t .go) _ _ rfl (queue_step hk rfl hs),
        fun u hs => hq (.queue k t (.signal u)) _ _ rfl (queue_step hk rfl hs)⟩
    obtain ⟨p, hp, hpc⟩ := Option.bind_eq_some_iff.1 hc
    obtain ⟨-, hall⟩ := hquiet.rests hwf.sound hwf.heard
    rcases hall p (List.mem_of_getElem? hp) with rfl | ⟨c', rfl, hlen⟩
    · cases hpc
    · cases hpc
      exact ⟨hp, List.eq_nil_of_length_eq_zero hlen⟩
  have houtside : ∀ (k : Nat) (w : Thread), ws[k]? = some w → w.incomingQueue.call 0 = none := by
    intro k w hk
    cases hc : w.incomingQueue.call 0 with
    | none => rfl
    | some c =>
      -- an `add` does not sleep
      obtain ⟨pkt, rfl, -⟩ := (h.thread k w hk).adds c hc
      obtain ⟨_, hready⟩ := (h.thread k w hk).sound.asleep 0 _ (hrest k w hk 0 _ hc).1
      cases hready
  refine ⟨?_, fun k w hk => ?_⟩
  · by_contra hd
    by_cases hadd : ∃ pkt k, d = .adding pkt k
    · obtain ⟨pkt, k, rfl⟩ := hadd
      obtain ⟨w, hk⟩ : ∃ w, ws[k]? = some w := ⟨_, List.getElem?_eq_getElem (h.target pkt k rfl)⟩
      have hlt : 0 < w.incomingQueue.pcs.length := by rw [(h.thread k w hk).two]; exact Nat.two_pos
      obtain ⟨q, es, hs⟩ := call_ok (.add pkt) hlt (houtside k w hk)
      exact hq (.queue k 0 (.call (.add pkt))) _ _ rfl (queue_step hk (by simp [Thread.calls]) hs)
    · obtain ⟨s₁, es, hs⟩ := look_ok conf (s := ⟨d, ws.map Thread.worker⟩) hd
      exact hq .look _ _ rfl (program_look (fun pkt k he => hadd ⟨pkt, k, he⟩) hs)
  · have hwf := h.thread k w hk
    cases hc : w.incomingQueue.call 1 with
    | some c =>
      obtain ⟨-, hpkt⟩ := hwf.removes c hc
      obtain ⟨hp, hdata⟩ := hrest k w hk 1 c hc
      have hres : w.incomingQueue.result 1 = none := Monitor.State.result_of_pcs hp
      exact ⟨by rw [Thread.removed, hres], hpkt, hdata⟩
    | none =>
      -- the thread removes the next packet, or processes the one it has
      obtain ⟨m, q, p⟩ := w
      cases p with
      | none =>
        have hlt : 1 < q.pcs.length := by rw [hwf.two]; exact Nat.one_lt_two
        obtain ⟨q', es, hs⟩ := call_ok .remove hlt hc
        exact (hq (.queue k 1 (.call .remove)) _ _ rfl (queue_step hk rfl hs)).elim
      | some p =>
        cases hst : (conf k).startListen m p with
        | error e => exact (hq (.process k) _ _ rfl (fail_step rfl hk hst)).elim
        | ok r =>
          obtain ⟨m', o⟩ := r
          exact (hq (.process k) _ _ rfl (process_step rfl hk hst)).elim

theorem Program.Quiet.sniffing (hq : s.Quiet conf) (h : s.Wf) (hend : s.ended = none) :
    s.view.dispatcher = .sniffing := by
  rw [Program.view, (hq.rests h hend).1]
  rfl

/-- What is at rest behind the view: a responder has processed everything, or its thread ended at
the next packet. -/
theorem Program.Quiet.responder {k : Nat} {r : Responder} (hq : s.Quiet conf) (h : s.Wf)
    (hend : s.ended = none) (hr : s.view.system[k]? = some r) : r.queue = [] := by
  rw [system_getElem?, hq.sniffing h hend, Program.view, List.getElem?_map] at hr
  obtain ⟨v, hv, rfl⟩ := Option.map_eq_some_iff.1 hr
  obtain ⟨w, hw, rfl⟩ := Option.map_eq_some_iff.1 hv
  obtain ⟨hrem, hp, hdata⟩ := (hq.rests h hend).2 k w hw
  simp [Worker.responder, Thread.worker, hrem, hp, hdata, Dispatcher.pending]

/-! ## At the end -/

/-- A process that has ended did so at the packet that a responder's thread has. -/
def Program.Blames (conf : Nat → Config) (s : Program) : Prop :=
  ∀ k, s.ended = some k → ∃ (m : Machine) (q : Queue) (p : Packet) (e : Halt),
    s.responders[k]? = some ⟨m, q, some p⟩ ∧ (conf k).startListen m p = .error e

theorem Program.Blames.step (hs : program conf s a = .ok (s', es)) : s'.Blames conf := by
  have hproceeds := program_proceeds hs
  obtain ⟨d, ws, ended⟩ := s
  obtain rfl : ended = none := program_alive hs
  cases hproceeds with
  | fail k m q p e hk hst =>
    intro j hj
    obtain rfl := Option.some.inj hj
    exact ⟨m, q, p, e, hk, hst⟩
  | _ => exact nofun

theorem Program.Blames.run (h : s.Blames conf) (hrun : Run (program conf) s T s') :
    s'.Blames conf :=
  hrun.inv (Program.Blames conf) (fun _ _ _ _ _ hs => .step hs) h

theorem Program.Blames.responder {k : Nat} {r : Responder} (h : s.Blames conf)
    (hend : s.ended = some k) (hr : s.view.system[k]? = some r) :
    ∃ p q e, r.queue = p :: q ∧ (conf k).startListen r.state p = .error e := by
  obtain ⟨m, q, p, e, hk, hst⟩ := h k hend
  rw [system_getElem?, Program.view, List.getElem?_map, hk] at hr
  obtain rfl := Option.some.inj hr
  exact ⟨p, _, e, rfl, hst⟩

/-- **Nothing that was sniffed is left lying.** A run is only as long as what was sniffed makes it,
and can always be brought to rest. There, if the process has not ended, everything that was sniffed
has been dispatched, and every responder has processed all that was dispatched to it. If it has, a
responder has processed all up to a packet whose processing fails. -/
theorem program_settles {n : Nat} (hrun : Run (program conf) (freshProgram n) T s) :
    T.length ≤ 5 * n + (2 * n + 19) * (sniffs (inputs T)).length + 5 * wakes (inputs T) ∧
    (∃ T' s', Run (program conf) s T' s' ∧ (∀ a ∈ inputs T', a.own = true) ∧ s'.Quiet conf) ∧
    (s.Quiet conf → s.ended = none → dispatched (outputs T) = sniffs (inputs T) ∧
      ∀ k < n, inbox k (outputs T) = inputs (served k (outputs T)) ∧
        ∃ m, Run (conf k).step .start (served k (outputs T)) m) ∧
    ∀ k, s.ended = some k → k < n ∧ ∃ m p q e,
      Run (conf k).step .start (served k (outputs T)) m ∧
      inbox k (outputs T) = inputs (served k (outputs T)) ++ p :: q ∧
      (conf k).startListen m p = .error e := by
  have hwf : s.Wf := (Program.Wf.fresh n).run hrun
  have hblames : s.Blames conf := Program.Blames.run (fun _ hk => by cases hk) hrun
  have hload := load_run (.fresh n) hrun
  have hlen : (freshProgram n).responders.length = n := by simp [freshProgram]
  rw [hlen, load_fresh] at hload
  -- the run of the threads with the same log
  obtain ⟨T', hT', ho, hi⟩ := program_view (.fresh n) hrun
  rw [view_freshProgram] at hT'
  have halone : ∀ k < n, ∃ r, s.view.system[k]? = some r ∧
      inbox k (outputs T) = inputs (served k (outputs T)) ++ r.queue ∧
      Run (conf k).step .start (served k (outputs T)) r.state := by
    intro k hk
    have hk' : (freshThreads n).system[k]? = some ⟨.start, []⟩ := by
      rw [system_freshThreads]
      simp [fresh, hk]
    rw [← ho]
    exact threads_alone hT' hk'
  refine ⟨by omega, exists_quiet hwf, fun hq hend => ⟨?_, fun k hk => ?_⟩, fun k hend => ?_⟩
  · have hdel := dispatched_run hT'
    rw [ho, hi, hq.sniffing hwf hend] at hdel
    simpa [Dispatcher.scanned, freshThreads] using hdel.symm
  · obtain ⟨r, hr, hqueue, hal⟩ := halone k hk
    rw [hq.responder hwf hend hr, List.append_nil] at hqueue
    exact ⟨hqueue, r.state, hal⟩
  · obtain ⟨m, q, p, e, hk, -⟩ := hblames k hend
    have hlt : k < n := by
      have hk' := (List.getElem?_eq_some_iff.1 hk).1
      rwa [length_programs hrun, hlen] at hk'
    obtain ⟨r, hr, hqueue, hal⟩ := halone k hlt
    obtain ⟨p, q, e, hcons, he⟩ := hblames.responder hend hr
    rw [hcons] at hqueue
    exact ⟨hlt, r.state, p, q, e, hal, hqueue, he⟩

/-- The responder's thread sleeps in `remove` when a SYN is sniffed, and is woken for it. -/
def arrivalActs : List ProgramAct :=
  [.queue 0 1 (.call .remove), .queue 0 1 .go, .queue 0 1 .go,
    .sniff ((sampleClient 40000).seg TCP.SYN 1000 0 []), .look, .look, .look,
    .queue 0 0 (.call (.add ((sampleClient 40000).seg TCP.SYN 1000 0 []))), .queue 0 0 .go,
    .queue 0 0 .go, .queue 0 0 .go, .queue 0 0 (.signal (some 1)), .queue 0 0 .go, .queue 0 1 .go,
    .queue 0 1 .go, .queue 0 1 .go, .queue 0 1 .go, .process 0]

def arrivalRun : List ProgramStep :=
  (exec (program fun _ => {}) (freshProgram 1) arrivalActs).toOption.getD []

theorem program_settles_arrival :
    arrivalRun.length ≤ 5 * 1 + (2 * 1 + 19) * (sniffs (inputs arrivalRun)).length +
      5 * wakes (inputs arrivalRun) ∧
    (∃ T' s', Run (program fun _ => {}) (final (freshProgram 1) arrivalRun) T' s' ∧
      (∀ a ∈ inputs T', a.own = true) ∧ s'.Quiet fun _ => {}) ∧
    ((final (freshProgram 1) arrivalRun).Quiet (fun _ => {}) →
      (final (freshProgram 1) arrivalRun).ended = none →
      dispatched (outputs arrivalRun) = sniffs (inputs arrivalRun) ∧
      ∀ k < 1, inbox k (outputs arrivalRun) = inputs (served k (outputs arrivalRun)) ∧
        ∃ m, Run ({} : Config).step .start (served k (outputs arrivalRun)) m) ∧
    ∀ k, (final (freshProgram 1) arrivalRun).ended = some k → k < 1 ∧ ∃ m p q e,
      Run ({} : Config).step .start (served k (outputs arrivalRun)) m ∧
      inbox k (outputs arrivalRun) = inputs (served k (outputs arrivalRun)) ++ p :: q ∧
      ({} : Config).startListen m p = .error e := by
  have he : exec (program fun _ => {}) (freshProgram 1) arrivalActs = .ok arrivalRun := rfl
  exact program_settles (Run.of_exec he).1

end Integratio
