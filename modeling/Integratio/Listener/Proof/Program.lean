import Integratio.Listener.Program
import Integratio.Listener.Proof.Threads

/-!
# The program and its threads

What the threads do down to the steps within the queues (`program`), beside `threads`, in which an
operation of a queue is one step. `Program.Wf` says that each thread is in a call that the program
makes, and `Thread.Wf.uses` what a step in a queue does then. `program_threads`: the two have the
same logs and lead to the same states.
-/

namespace Integratio

open Actors Transducer
open Monitor (Heard Move Quiet Sound)

variable {conf : Nat → Config} {s s' : Program} {a : ProgramAct}
  {es : List (Entry Machine Packet Effect)} {T : List ProgramStep}

/-! ## The threads in their calls -/

/-- The queue of a responder: the two threads are in calls that the program makes. -/
structure Thread.Wf (d : Dispatcher) (k : Nat) (w : Thread) : Prop where
  sound : Sound wqueue w.incomingQueue
  heard : Heard List.length WqueueCall.waits w.incomingQueue
  two : w.incomingQueue.pcs.length = 2
  adds : ∀ c, w.incomingQueue.call 0 = some c → ∃ pkt, c = .add pkt ∧ d = .adding pkt k
  removes : ∀ c, w.incomingQueue.call 1 = some c → c = .remove ∧ w.pkt = none
  items : ∀ r, w.incomingQueue.result 1 = some r → ∃ p, r = .item (some p)

structure Program.Wf (s : Program) : Prop where
  thread : ∀ (k : Nat) (w : Thread), s.responders[k]? = some w → w.Wf s.dispatcher k
  target : ∀ pkt k, s.dispatcher = .adding pkt k → k < s.responders.length

theorem Program.Wf.fresh (n : Nat) : (freshProgram n).Wf := by
  refine ⟨fun k w hk => ?_, by simp [freshProgram]⟩
  have hw : w = ⟨.start, Monitor.idle 2 [], none⟩ :=
    List.eq_of_mem_replicate (List.mem_of_getElem? hk)
  subst hw
  refine ⟨Sound.idle wqueue 2 [], Heard.idle 2 [], rfl, ?_, ?_, ?_⟩
  · intro c hc
    cases hc
  · intro c hc
    cases hc
  · intro r hr
    cases hr

/-- What a step in a queue does, for each call that the program makes. -/
inductive Uses (d : Dispatcher) (k : Nat) (q q' : Queue) (p : Option Packet) :
    Move (WqueueCall Packet) →
    List (Monitor.Event (WqueueCall Packet) (WqueueResult Packet)) → Prop
  | callAdd (pkt : Packet) : d = .adding pkt k → q.call 0 = none → q'.data = q.data →
      q'.call = Function.update q.call 0 (some (.add pkt)) → q'.result = q.result →
      Uses d k q q' p (.call (.add pkt)) [.called 0 (.add pkt)]
  | callRemove : p = none → q.call 1 = none → q'.data = q.data →
      q'.call = Function.update q.call 1 (some .remove) → q'.result = q.result →
      Uses d k q q' p (.call .remove) [.called 1 .remove]
  | add (pkt : Packet) : d = .adding pkt k → q.call 0 ≠ none → q.result 0 = none →
      q'.data = q.data ++ [pkt] → q'.call = q.call →
      q'.result = Function.update q.result 0 (some .void) →
      Uses d k q q' p .go [.ran 0 (.add pkt) .void]
  | remove (pkt : Packet) : p = none → q.call 1 ≠ none → q.result 1 = none →
      q.data = pkt :: q'.data → q'.call = q.call →
      q'.result = Function.update q.result 1 (some (.item (some pkt))) →
      Uses d k q q' p .go [.ran 1 .remove (.item (some pkt))]
  | added (pkt : Packet) (r : WqueueResult Packet) : d = .adding pkt k → q.call 0 ≠ none →
      q.result 0 = some r → q'.data = q.data → q'.call = Function.update q.call 0 none →
      q'.result = Function.update q.result 0 none →
      Uses d k q q' p .go [.returned 0 (.add pkt) r]
  | removed (pkt : Packet) : p = none → q.call 1 ≠ none →
      q.result 1 = some (.item (some pkt)) → q'.data = q.data →
      q'.call = Function.update q.call 1 none → q'.result = Function.update q.result 1 none →
      Uses d k q q' p .go [.returned 1 .remove (.item (some pkt))]
  | silent (mv : Move (WqueueCall Packet)) : (∀ c, mv ≠ .call c) → q'.data = q.data →
      q'.call = q.call → q'.result = q.result → Uses d k q q' p mv []

theorem Thread.Wf.uses {d : Dispatcher} {k t : Nat} {m : Machine} {q q' : Queue}
    {p : Option Packet} {mv : Move (WqueueCall Packet)}
    {es : List (Monitor.Event (WqueueCall Packet) (WqueueResult Packet))}
    (h : Thread.Wf d k ⟨m, q, p⟩) (hc : Thread.calls d k ⟨m, q, p⟩ t mv = true)
    (hs : Monitor.step wqueue q (t, mv) = .ok (q', es)) : Uses d k q q' p mv es := by
  -- a thread that has called is the sniffer's or the responder's
  have hthread : ∀ {pc : Monitor.Pc (WqueueCall Packet) (WqueueResult Packet)},
      q.pcs[t]? = some pc → t = 0 ∨ t = 1 := by
    intro pc hp
    have hlt := (List.getElem?_eq_some_iff.1 hp).1
    have htwo : q.pcs.length = 2 := h.two
    omega
  cases Monitor.step_changes hs with
  | called c hn hd hcall hres =>
    cases c with
    | add pkt =>
      obtain ⟨rfl, hdisp⟩ : t = 0 ∧ d = .adding pkt k := by simpa [Thread.calls] using hc
      exact .callAdd pkt hdisp hn hd hcall hres
    | remove =>
      obtain ⟨rfl, hp⟩ : t = 1 ∧ p = none := by simpa [Thread.calls] using hc
      exact .callRemove hp hn hd hcall hres
    | size => cases hc
  | ran c hp hd hcall hres =>
    have hc' := Monitor.State.call_of_pcs hp
    have hr' := Monitor.State.result_of_pcs hp
    rcases hthread hp with rfl | rfl
    · obtain ⟨pkt, rfl, hdisp⟩ := h.adds c hc'
      exact .add pkt hdisp (by simp [hc', Monitor.Pc.call]) hr' hd hcall hres
    · obtain ⟨rfl, hpkt⟩ := h.removes c hc'
      have hready := h.sound.act 1 _ hp
      obtain ⟨data, owner, pcs⟩ := q
      cases data with
      | nil => simp [wqueue] at hready
      | cons pkt data =>
        exact .remove pkt hpkt (by simp [hc', Monitor.Pc.call]) hr' (congrArg _ hd.symm) hcall hres
  | returned c r hp hd hcall hres =>
    have hc' := Monitor.State.call_of_pcs hp
    have hr' := Monitor.State.result_of_pcs hp
    rcases hthread hp with rfl | rfl
    · obtain ⟨pkt, rfl, hdisp⟩ := h.adds c hc'
      exact .added pkt r hdisp (by simp [hc', Monitor.Pc.call]) hr' hd hcall hres
    · obtain ⟨rfl, hpkt⟩ := h.removes c hc'
      obtain ⟨pkt, rfl⟩ := h.items r hr'
      exact .removed pkt hpkt (by simp [hc', Monitor.Pc.call]) hr' hd hcall hres
  | silent mv hmv hd hcall hres => exact .silent mv hmv hd hcall hres

theorem Thread.Wf.redirect {d d' : Dispatcher} {k : Nat} {w : Thread} (h : w.Wf d k)
    (hd : ∀ pkt, d = .adding pkt k → d' = .adding pkt k) : w.Wf d' k := by
  refine ⟨h.sound, h.heard, h.two, fun c hc => ?_, h.removes, h.items⟩
  obtain ⟨pkt, rfl, he⟩ := h.adds c hc
  exact ⟨pkt, rfl, hd pkt he⟩

theorem Thread.Wf.queue {d : Dispatcher} {k t : Nat} {m : Machine} {q q' : Queue}
    {p : Option Packet} {mv : Move (WqueueCall Packet)}
    {es : List (Monitor.Event (WqueueCall Packet) (WqueueResult Packet))}
    (h : Thread.Wf d k ⟨m, q, p⟩) (hc : Thread.calls d k ⟨m, q, p⟩ t mv = true)
    (hs : Monitor.step wqueue q (t, mv) = .ok (q', es)) :
    (Thread.returns ⟨m, q', p⟩ es).Wf (d.returns es) k := by
  have hsound : Sound wqueue q' := h.sound.step hs
  have hheard : Heard List.length WqueueCall.waits q' := h.heard.step wqueue_counts h.sound hs
  have htwo : q'.pcs.length = 2 := (Monitor.length_step hs).trans h.two
  have hadds := h.adds
  have hremoves := h.removes
  have hitems := h.items
  dsimp only at hadds hremoves hitems
  cases h.uses hc hs with
  | callAdd pkt hd hn hdata hcall hres =>
    refine ⟨hsound, hheard, htwo, fun c hc' => ?_, fun c hc' => ?_, fun r hr => ?_⟩
    · exact ⟨pkt, by simpa [Thread.returns, hcall, eq_comm] using hc', hd⟩
    · exact hremoves c (by simpa [Thread.returns, hcall] using hc')
    · exact hitems r (by simpa [Thread.returns, hres] using hr)
  | callRemove hp hn hdata hcall hres =>
    refine ⟨hsound, hheard, htwo, fun c hc' => ?_, fun c hc' => ?_, fun r hr => ?_⟩
    · exact hadds c (by simpa [Thread.returns, hcall] using hc')
    · exact ⟨by simpa [Thread.returns, hcall, eq_comm] using hc', hp⟩
    · exact hitems r (by simpa [Thread.returns, hres] using hr)
  | add pkt hd hin hn hdata hcall hres | silent mv hmv hdata hcall hres =>
    refine ⟨hsound, hheard, htwo, fun c hc' => ?_, fun c hc' => ?_, fun r hr => ?_⟩
    · exact hadds c (by simpa [Thread.returns, hcall] using hc')
    · exact hremoves c (by simpa [Thread.returns, hcall] using hc')
    · exact hitems r (by simpa [Thread.returns, hres] using hr)
  | remove pkt hp hin hn hdata hcall hres =>
    refine ⟨hsound, hheard, htwo, fun c hc' => ?_, fun c hc' => ?_, fun r hr => ?_⟩
    · exact hadds c (by simpa [Thread.returns, hcall] using hc')
    · exact hremoves c (by simpa [Thread.returns, hcall] using hc')
    · exact ⟨pkt, by simpa [Thread.returns, hres, eq_comm] using hr⟩
  | added pkt r hd hin hn hdata hcall hres =>
    refine ⟨hsound, hheard, htwo, fun c hc' => ?_, fun c hc' => ?_, fun r hr => ?_⟩
    · simp [Thread.returns, hcall] at hc'
    · exact hremoves c (by simpa [Thread.returns, hcall] using hc')
    · exact hitems r (by simpa [Thread.returns, hres] using hr)
  | removed pkt hp hin hn hdata hcall hres =>
    refine ⟨hsound, hheard, htwo, fun c hc' => ?_, fun c hc' => ?_, fun r hr => ?_⟩
    · exact hadds c (by simpa [Thread.returns, hcall] using hc')
    · simp [Thread.returns, hcall] at hc'
    · simp [Thread.returns, hres] at hr

/-- A `forwardPacket` returns from the queue to which it added. -/
theorem Uses.dispatcher {d : Dispatcher} {k : Nat} {q q' : Queue} {p : Option Packet}
    {mv : Move (WqueueCall Packet)}
    {es : List (Monitor.Event (WqueueCall Packet) (WqueueResult Packet))}
    (h : Uses d k q q' p mv es) :
    d.returns es = d ∨ d.returns es = .sniffing ∧ ∃ pkt, d = .adding pkt k := by
  cases h with
  | added pkt r hd => exact .inr ⟨rfl, pkt, hd⟩
  | _ => exact .inl rfl

theorem Program.Wf.step (h : s.Wf) (hs : program conf s a = .ok (s', es)) : s'.Wf := by
  cases program_proceeds hs with
  | sniff pkt hd =>
    refine ⟨fun k w hk => (h.thread k w hk).redirect fun pkt' he => ?_, by simp⟩
    rw [hd] at he
    cases he
  | look s₁ es hd hlook =>
    refine ⟨fun k w hk => (h.thread k w hk).redirect fun pkt' he => absurd he (hd pkt' k),
      fun pkt k he => ?_⟩
    cases threads_turns hlook with
    | found pkt' i w hw =>
      cases he
      simpa using (List.getElem?_eq_some_iff.1 hw).1
    | add pkt' k' hd' => exact absurd hd' (hd pkt' k')
    | _ => cases he
  | queue k t mv m q q' p es hk hc hq =>
    have hwf := h.thread k _ hk
    have hdisp := (hwf.uses hc hq).dispatcher
    refine ⟨fun j w hj => ?_, fun pkt j he => ?_⟩
    · by_cases hjk : k = j
      · subst hjk
        rw [List.getElem?_set_self (List.getElem?_eq_some_iff.1 hk).1] at hj
        cases hj
        exact hwf.queue hc hq
      · rw [List.getElem?_set_ne hjk] at hj
        refine (h.thread j w hj).redirect fun pkt he => ?_
        rcases hdisp with hd | ⟨-, pkt', hd⟩
        · rw [hd, he]
        · rw [hd] at he
          cases he
          exact absurd rfl hjk
    · rw [List.length_set]
      rcases hdisp with hd | ⟨hd, -⟩
      · exact h.target pkt j (hd ▸ he)
      · simp [hd] at he
  | process k m q p m' o hk hst =>
    refine ⟨fun j w hj => ?_, fun pkt j he => by simpa using h.target pkt j he⟩
    by_cases hjk : k = j
    · subst hjk
      rw [List.getElem?_set_self (List.getElem?_eq_some_iff.1 hk).1] at hj
      cases hj
      have hwf := h.thread k _ hk
      exact ⟨hwf.sound, hwf.heard, hwf.two, hwf.adds, fun c hc => ⟨(hwf.removes c hc).1, rfl⟩,
        hwf.items⟩
    · rw [List.getElem?_set_ne hjk] at hj
      exact h.thread j w hj
  | fail => exact ⟨h.thread, h.target⟩

theorem Program.Wf.run (h : s.Wf) (hrun : Run (program conf) s T s') : s'.Wf :=
  hrun.inv Program.Wf (fun _ _ _ _ h hs => h.step hs) h

/-! ## The program is the threads -/

/-- The packets that `pktCallback` is called with. -/
def sniffs (acts : List ProgramAct) : List Packet :=
  acts.filterMap fun
    | .sniff pkt => some pkt
    | _ => none

theorem sniffs_append (l l' : List ProgramAct) : sniffs (l ++ l') = sniffs l ++ sniffs l' :=
  List.filterMap_append

theorem hasAdded_of {ws : List Thread} {k : Nat} {w : Thread} (hk : ws[k]? = some w) :
    hasAdded ws k = (w.incomingQueue.result 0).isSome := by rw [hasAdded, hk, Option.any_some]

theorem hasAdded_set {ws : List Thread} {k : Nat} {w w' : Thread} (hk : ws[k]? = some w)
    (hw : w'.incomingQueue.result 0 = w.incomingQueue.result 0) (j : Nat) :
    hasAdded (ws.set k w') j = hasAdded ws j := by
  by_cases hjk : k = j
  · subst hjk
    rw [hasAdded_of hk, hasAdded_of (List.getElem?_set_self (List.getElem?_eq_some_iff.1 hk).1), hw]
  · rw [hasAdded, hasAdded, List.getElem?_set_ne hjk]

theorem dispatcher_view {ws : List Thread} (h : ∀ k, hasAdded ws k = false) (d : Dispatcher) :
    d.view ws = d := by
  cases d with
  | adding pkt k => simp [Dispatcher.view, h k]
  | _ => rfl

theorem dispatcher_view_congr {ws ws' : List Thread} (h : ∀ k, hasAdded ws k = hasAdded ws' k)
    (d : Dispatcher) : d.view ws = d.view ws' := by
  cases d with
  | adding pkt k => simp only [Dispatcher.view, h k]
  | _ => rfl

theorem map_set_same {ws : List Thread} {k : Nat} {w w' : Thread} (hk : ws[k]? = some w)
    (hw : w'.worker = w.worker) : (ws.set k w').map Thread.worker = ws.map Thread.worker := by
  refine List.ext_getElem? fun j => ?_
  rw [List.getElem?_map, List.getElem?_map]
  by_cases hjk : k = j
  · subst hjk
    rw [List.getElem?_set_self (List.getElem?_eq_some_iff.1 hk).1, hk]
    exact congrArg some hw
  · rw [List.getElem?_set_ne hjk]

variable (conf) in
/-- A step in a queue is nothing to the threads, or it is the operation. -/
theorem view_queue {d : Dispatcher} {ws : List Thread} {k t : Nat} {m : Machine} {q q' : Queue}
    {p : Option Packet} {mv : Move (WqueueCall Packet)}
    {es : List (Monitor.Event (WqueueCall Packet) (WqueueResult Packet))}
    (h : (⟨d, ws, none⟩ : Program).Wf) (hk : ws[k]? = some ⟨m, q, p⟩)
    (hc : Thread.calls d k ⟨m, q, p⟩ t mv = true)
    (hs : Monitor.step wqueue q (t, mv) = .ok (q', es)) :
    let s' : Program := ⟨d.returns es, ws.set k (Thread.returns ⟨m, q', p⟩ es), none⟩
    s'.view = (⟨d, ws, none⟩ : Program).view ∨
      ∃ b, sniffed [b] = [] ∧
        threads conf (⟨d, ws, none⟩ : Program).view b = .ok (s'.view, []) := by
  have hlt := (List.getElem?_eq_some_iff.1 hk).1
  -- nothing changes behind the view
  have hsame : ∀ {d' : Dispatcher} {w' : Thread}, w'.worker = Thread.worker ⟨m, q, p⟩ →
      d'.view (ws.set k w') = d.view ws →
      (⟨d', ws.set k w', none⟩ : Program).view = (⟨d, ws, none⟩ : Program).view :=
    fun hw hd => congrArg₂ Threads.mk hd (map_set_same hk hw)
  have hstill (hres : q'.result = q.result) : d.view (ws.set k ⟨m, q', p⟩) = d.view ws :=
    dispatcher_view_congr (hasAdded_set hk (congrFun hres 0)) d
  have hwf : Thread.Wf d k ⟨m, q, p⟩ := h.thread k _ hk
  cases hwf.uses hc hs with
  | callAdd pkt hd hn hdata hcall hres | callRemove hp hn hdata hcall hres
  | silent mv hmv hdata hcall hres =>
    refine .inl (hsame ?_ (hstill hres))
    simp [Thread.worker, Thread.removed, Thread.returns, hdata, hres]
  | add pkt hd hin hn hdata hcall hres =>
    refine .inr ⟨.look, rfl, ?_⟩
    subst hd
    have hbefore : hasAdded ws k = false := by rw [hasAdded_of hk, hn]; rfl
    have hafter : hasAdded (ws.set k ⟨m, q', p⟩) k = true := by
      rw [hasAdded_of (List.getElem?_set_self hlt), hres, Function.update_self]; rfl
    simp only [Program.view, Dispatcher.view, hbefore, Dispatcher.returns, Thread.returns, hafter,
      threads, Bool.false_eq_true, if_false, if_true]
    refine congrArg (fun l => Except.ok ((⟨.sniffing, l⟩ : Threads), []))
      (List.ext_getElem? fun j => ?_)
    rw [List.getElem?_modify, List.getElem?_map, List.getElem?_map]
    by_cases hjk : k = j
    · subst hjk
      rw [List.getElem?_set_self hlt, hk]
      simp [Thread.worker, Thread.removed, hdata, hres, wqueue]
    · rw [List.getElem?_set_ne hjk]
      simp [hjk]
  | remove pkt hp hin hn hdata hcall hres =>
    refine .inr ⟨.remove k, rfl, ?_⟩
    subst hp
    have hd : d.view (ws.set k ⟨m, q', none⟩) = d.view ws :=
      dispatcher_view_congr (hasAdded_set hk (by simp [hres])) d
    have hw : (ws.map Thread.worker)[k]? = some ⟨m, pkt :: q'.data, none⟩ := by
      rw [List.getElem?_map, hk]
      simp [Thread.worker, Thread.removed, hdata, hn]
    have hatomic : Monitor.atomic wqueue (pkt :: q'.data) .remove =
        .ok (q'.data, [(.remove, .item (some pkt))]) := rfl
    simp only [Program.view, Dispatcher.returns, Thread.returns, hd, threads, hw, hatomic,
      List.map_set]
    simp [Thread.worker, Thread.removed, hres]
  | added pkt r hd hin hn hdata hcall hres =>
    refine .inl (hsame ?_ ?_)
    · simp [Thread.worker, Thread.removed, Thread.returns, hdata, hres]
    · have hadded : hasAdded ws k = true := by rw [hasAdded_of hk, hn]; rfl
      simp [Dispatcher.returns, Dispatcher.view, hd, hadded]
  | removed pkt hp hin hn hdata hcall hres =>
    refine .inl (hsame ?_ (dispatcher_view_congr (hasAdded_set hk
      (by simp [Thread.returns, hres])) d))
    simp [Thread.worker, Thread.removed, Thread.returns, hdata, hres, hn, hp]

theorem Program.Wf.hasAdded (h : s.Wf) (hd : ∀ pkt k, s.dispatcher ≠ .adding pkt k) (k : Nat) :
    Integratio.hasAdded s.responders k = false := by
  cases hk : s.responders[k]? with
  | none => rw [Integratio.hasAdded, hk, Option.any_none]
  | some w =>
    rw [hasAdded_of hk]
    cases hr : w.incomingQueue.result 0 with
    | none => rfl
    | some r =>
      obtain ⟨c, hc⟩ := Monitor.State.call_of_result hr
      obtain ⟨pkt, -, he⟩ := (h.thread k w hk).adds c hc
      exact absurd he (hd pkt k)

/-- What the responder's thread has not processed, it is not removing. -/
theorem Thread.Wf.not_removed {d : Dispatcher} {k : Nat} {w : Thread} (h : w.Wf d k)
    (hp : w.pkt ≠ none) : w.removed = none := by
  rw [Thread.removed]
  cases hr : w.incomingQueue.result 1 with
  | none => rfl
  | some r =>
    obtain ⟨c, hc⟩ := Monitor.State.call_of_result hr
    exact absurd (h.removes c hc).2 hp

theorem look_responders {s s' : Threads} (hd : ∀ pkt k, s.dispatcher ≠ .adding pkt k)
    (h : threads conf s .look = .ok (s', es)) : s'.responders = s.responders := by
  cases threads_turns h with
  | add pkt k he => exact absurd he (hd pkt k)
  | _ => rfl

theorem program_turn (h : s.Wf) (hs : program conf s a = .ok (s', es)) :
    ∃ T', Run (threads conf) s.view T' s'.view ∧ outputs T' = es ∧
      sniffed (inputs T') = sniffs [a] := by
  cases program_proceeds hs with
  | sniff pkt hd =>
    have hv : s.view.dispatcher = .sniffing := by rw [Program.view, hd]; rfl
    refine ⟨_, .single (i := .sniff pkt) (o := []) ?_, rfl, rfl⟩
    simp only [threads, hv]
    rfl
  | look s₁ es hd hlook =>
    have hview : ∀ d : Dispatcher, Program.view { s with dispatcher := d } =
        ⟨d, s.responders.map Thread.worker⟩ :=
      fun d => congrArg₂ Threads.mk (dispatcher_view (h.hasAdded hd) d) rfl
    refine ⟨_, .single (i := .look) (o := es) ?_, by simp, rfl⟩
    have hs₁ : s₁ = ⟨s₁.dispatcher, s.responders.map Thread.worker⟩ :=
      congrArg (Threads.mk s₁.dispatcher) (look_responders hd hlook)
    rw [show s.view = _ from hview s.dispatcher, hlook]
    exact congrArg (fun s => Except.ok (s, es)) (hs₁.trans (hview s₁.dispatcher).symm)
  | queue k t mv m q q' p es hk hc hq =>
    obtain ⟨d, ws, ended⟩ := s
    obtain rfl : ended = none := program_alive hs
    rcases view_queue conf h hk hc hq with he | ⟨b, hb, hst⟩
    · exact ⟨[], he ▸ .nil, rfl, rfl⟩
    · exact ⟨_, .single hst, rfl, hb⟩
  | process k m q p m' o hk hst =>
    have hrem : (Thread.mk m q (some p)).removed = none :=
      (h.thread k _ hk).not_removed (by simp)
    have hw : s.view.responders[k]? = some ⟨m, q.data, some p⟩ := by
      rw [Program.view, List.getElem?_map, hk]
      rfl
    have hd : s.dispatcher.view (s.responders.set k ⟨m', q, none⟩) =
        s.dispatcher.view s.responders :=
      dispatcher_view_congr (hasAdded_set hk (by rfl)) s.dispatcher
    refine ⟨_, .single (i := .process k) (o := [.served k ⟨m, p, m', o⟩]) ?_, by simp, rfl⟩
    simp only [threads, hw, hst]
    refine congrArg (fun s => Except.ok (s, _)) (congrArg₂ Threads.mk hd.symm ?_)
    rw [List.map_set]
    exact congrArg ((s.responders.map Thread.worker).set k)
      (congrArg (Worker.mk m' q.data) hrem.symm)
  | fail => exact ⟨[], .nil, rfl, rfl⟩

theorem program_view (h : s.Wf) (hrun : Run (program conf) s T s') :
    ∃ T', Run (threads conf) s.view T' s'.view ∧ outputs T' = outputs T ∧
      sniffed (inputs T') = sniffs (inputs T) :=
  (hrun.follows Program.view Program.Wf _ _
    (fun _ _ _ _ h hs => ⟨h.step hs, program_turn h hs⟩) h).2

/-! ## The threads are the program -/

section
variable {d : Dispatcher} {ws : List Thread} {k t : Nat} {m : Machine} {q q' : Queue}
  {p : Option Packet}

theorem queue_step {mv : Move (WqueueCall Packet)}
    {es : List (Monitor.Event (WqueueCall Packet) (WqueueResult Packet))}
    (hk : ws[k]? = some ⟨m, q, p⟩) (hc : Thread.calls d k ⟨m, q, p⟩ t mv = true)
    (hs : Monitor.step wqueue q (t, mv) = .ok (q', es)) :
    program conf ⟨d, ws, none⟩ (.queue k t mv) =
      .ok (⟨d.returns es, ws.set k (Thread.returns ⟨m, q', p⟩ es), none⟩, []) := by
  simp only [program, hk, hc, if_true, hs]

theorem process_step {m' : Machine} {pkt : Packet} {o : List Effect} (hend : s.ended = none)
    (hk : s.responders[k]? = some ⟨m, q, some pkt⟩)
    (hst : (conf k).startListen m pkt = .ok (m', o)) :
    program conf s (.process k) =
      .ok ({ s with responders := s.responders.set k ⟨m', q, none⟩ },
        [.served k ⟨m, pkt, m', o⟩]) := by
  simp only [program, hend, hk, hst]

theorem fail_step {pkt : Packet} {e : Halt} (hend : s.ended = none)
    (hk : s.responders[k]? = some ⟨m, q, some pkt⟩) (hst : (conf k).startListen m pkt = .error e) :
    program conf s (.process k) = .ok ({ s with ended := some k }, []) := by
  simp only [program, hend, hk, hst]

variable (conf) in
/-- What the two threads do in a queue until one of them returns. -/
theorem queue_run
    {M : List (Monitor.MonitorStep (List Packet) (WqueueCall Packet) (WqueueResult Packet))}
    (hM : Run (Monitor.step wqueue) q M q') (hk : ws[k]? = some ⟨m, q, p⟩)
    (hc : ∀ x ∈ inputs M, Thread.calls d k ⟨m, q, p⟩ x.1 x.2 = true)
    (hret : ∀ t c r, .returned t c r ∉ outputs M) :
    ∃ T, Run (program conf) ⟨d, ws, none⟩ T ⟨d, ws.set k ⟨m, q', p⟩, none⟩ ∧ outputs T = [] ∧
      sniffs (inputs T) = [] := by
  have hlt := (List.getElem?_eq_some_iff.1 hk).1
  induction hM with
  | nil =>
    refine ⟨[], ?_, rfl, rfl⟩
    have hsame : ws.set k ⟨m, q, p⟩ = ws := by
      obtain ⟨_, hw⟩ := List.getElem?_eq_some_iff.1 hk
      rw [← hw, List.set_getElem_self]
    rw [hsame]
    exact .nil
  | @snoc M q₁ q₂ x es _ hs ih =>
    simp only [inputs_append, inputs_cons, inputs_nil, List.mem_append, List.mem_singleton] at hc
    simp only [outputs_append, outputs_cons, outputs_nil, List.append_nil, List.mem_append,
      not_or] at hret
    obtain ⟨T, hT, ho, hi⟩ := ih (fun y hy => hc y (.inl hy)) fun t c r => (hret t c r).1
    have hd : d.returns es = d := by
      unfold Dispatcher.returns
      split
      · rename_i t pkt r
        exact absurd (List.mem_singleton_self _) (hret t _ r).2
      · rfl
    have hw : Thread.returns ⟨m, q₂, p⟩ es = ⟨m, q₂, p⟩ := by
      unfold Thread.returns
      split
      · rename_i t pkt
        exact absurd (List.mem_singleton_self _) (hret t _ _).2
      · rfl
    have hk₁ : (ws.set k ⟨m, q₁, p⟩)[k]? = some ⟨m, q₁, p⟩ := List.getElem?_set_self hlt
    obtain ⟨t, mv⟩ := x
    have hstep : program conf ⟨d, ws.set k ⟨m, q₁, p⟩, none⟩ (.queue k t mv) = _ :=
      queue_step hk₁ (hc (t, mv) (.inr rfl)) hs
    rw [hd, hw, List.set_set] at hstep
    refine ⟨_, hT.snoc hstep, by simp [ho], ?_⟩
    rw [inputs_append, sniffs_append, hi]
    rfl

variable (conf) in
/-- An operation on a queue that no thread uses. -/
theorem queue_alone {data : List Packet} {c : WqueueCall Packet}
    (hk : ws[k]? = some ⟨m, Monitor.idle 2 data, p⟩) (ht : t < 2)
    (hc : Thread.calls d k ⟨m, Monitor.idle 2 data, p⟩ t (.call c) = true)
    (hr : wqueue.ready c data = true) :
    ∃ T, Run (program conf) ⟨d, ws, none⟩ T
        ⟨d.returns [.returned t c (wqueue.body c data).2],
          ws.set k (Thread.returns ⟨m, Monitor.idle 2 (wqueue.body c data).1, p⟩
            [.returned t c (wqueue.body c data).2]), none⟩ ∧
      outputs T = [] ∧ sniffs (inputs T) = [] := by
  obtain ⟨M, q, hM, hacts, hout, hlast⟩ := Monitor.run_alone ht hr
  have hcalls : ∀ x ∈ inputs M,
      Thread.calls d k ⟨m, Monitor.idle 2 data, p⟩ x.1 x.2 = true := by
    intro x hx
    rcases hacts x hx with rfl | rfl | rfl
    · exact hc
    · rfl
    · rfl
  obtain ⟨T, hT, ho, hi⟩ := queue_run conf hM hk hcalls (by simp [hout])
  have hk' : (ws.set k ⟨m, q, p⟩)[k]? = some ⟨m, q, p⟩ :=
    List.getElem?_set_self (List.getElem?_eq_some_iff.1 hk).1
  have hstep : program conf ⟨d, ws.set k ⟨m, q, p⟩, none⟩ (.queue k t .go) = _ :=
    queue_step hk' rfl hlast
  rw [List.set_set] at hstep
  refine ⟨_, hT.snoc hstep, by simp [ho], ?_⟩
  rw [inputs_append, sniffs_append, hi]
  rfl

end

/-- A packet is only added to a queue that there is. -/
def Threads.Aims (s : Threads) : Prop :=
  ∀ pkt k, s.dispatcher = .adding pkt k → k < s.responders.length

theorem program_getElem? {s : Threads} {k : Nat} {w : Worker} (hk : s.responders[k]? = some w) :
    s.program.responders[k]? = some ⟨w.machine, Monitor.idle 2 w.incomingQueue, w.pkt⟩ := by
  rw [Threads.program, List.getElem?_map, hk, Option.map_some]

theorem program_set (d : Dispatcher) (s : Threads) (k : Nat) (w : Worker) :
    (⟨d, s.responders.set k w⟩ : Threads).program =
      ⟨d, s.program.responders.set k ⟨w.machine, Monitor.idle 2 w.incomingQueue, w.pkt⟩,
        none⟩ := by
  rw [Threads.program, Threads.program, List.map_set]

theorem program_look {d : Dispatcher} {ws : List Thread} {s' : Threads}
    (hd : ∀ pkt k, d ≠ .adding pkt k)
    (hs : threads conf ⟨d, ws.map Thread.worker⟩ .look = .ok (s', es)) :
    program conf ⟨d, ws, none⟩ .look = .ok (⟨s'.dispatcher, ws, none⟩, es) := by
  cases d with
  | adding pkt k => exact absurd rfl (hd pkt k)
  | _ => simp only [program, hs]

theorem threads_turn {s s' : Threads} {b : ThreadAct} (h : s.Aims)
    (hs : threads conf s b = .ok (s', es)) :
    s'.Aims ∧ ∃ T, Run (program conf) s.program T s'.program ∧ outputs T = es ∧
      sniffs (inputs T) = sniffed [b] := by
  have hworkers : s.program.responders.map Thread.worker = s.responders :=
    congrArg Threads.responders (view_program s)
  -- a look at a responder
  have hlook : (∀ pkt k, s.dispatcher ≠ .adding pkt k) → b = .look →
      ∃ T, Run (program conf) s.program T s'.program ∧ outputs T = es ∧
        sniffs (inputs T) = sniffed [b] := by
    rintro hd rfl
    have hlook : threads conf ⟨s.dispatcher, s.program.responders.map Thread.worker⟩ .look =
        .ok (s', es) := by
      rw [hworkers]
      exact hs
    have hstep := program_look hd hlook
    have hs' : (⟨s'.dispatcher, s.program.responders, none⟩ : Program) = s'.program := by
      rw [Threads.program, Threads.program, look_responders hd hs]
    exact ⟨_, .single (hs' ▸ hstep), by simp, rfl⟩
  cases threads_turns hs with
  | sniff pkt hd =>
    refine ⟨by simp [Threads.Aims], _, .single (i := .sniff pkt) (o := []) ?_, rfl, rfl⟩
    have hd' : s.program.dispatcher = .sniffing := hd
    simp only [program, hd']
    rfl
  | passStream pkt i w hd hw hid =>
    exact ⟨by simp [Threads.Aims], hlook (by simp [hd]) rfl⟩
  | second pkt i hd hi => exact ⟨by simp [Threads.Aims], hlook (by simp [hd]) rfl⟩
  | passFree pkt i w hd hw hid => exact ⟨by simp [Threads.Aims], hlook (by simp [hd]) rfl⟩
  | found pkt i w hw hd =>
    refine ⟨fun pkt' k he => ?_, hlook (fun pkt' k he => ?_) rfl⟩
    · cases he
      exact (List.getElem?_eq_some_iff.1 hw).1
    · rcases hd with ⟨hd, -⟩ | ⟨hd, -⟩ <;> simp [hd] at he
  | refused pkt i hd hi => exact ⟨by simp [Threads.Aims], hlook (by simp [hd]) rfl⟩
  | add pkt k hd =>
    refine ⟨by simp [Threads.Aims], ?_⟩
    obtain ⟨w, hk⟩ : ∃ w, s.responders[k]? = some w := ⟨_, List.getElem?_eq_getElem (h pkt k hd)⟩
    have hc : Thread.calls s.program.dispatcher k
        ⟨w.machine, Monitor.idle 2 w.incomingQueue, w.pkt⟩ 0 (.call (.add pkt)) = true := by
      simp [Thread.calls, Threads.program, hd]
    obtain ⟨T, hT, ho, hi⟩ :=
      queue_alone conf (program_getElem? hk) Nat.zero_lt_two hc rfl
    refine ⟨T, ?_, ho, hi⟩
    rw [List.modify_eq_set_getElem?, hk, Option.map_eq_map, Option.map_some, Option.getD_some,
      program_set]
    exact hT
  | remove k m p q hk =>
    refine ⟨fun pkt j hj => by simpa using h pkt j hj, ?_⟩
    obtain ⟨T, hT, ho, hi⟩ :=
      queue_alone conf (c := .remove) (program_getElem? hk) Nat.one_lt_two rfl rfl
    refine ⟨T, ?_, ho, hi⟩
    rw [program_set]
    exact hT
  | process k m p q m' o hk hst =>
    refine ⟨fun pkt j hj => by simpa using h pkt j hj, ?_⟩
    rw [program_set]
    exact ⟨_, .single (process_step rfl (program_getElem? hk) hst), by simp, rfl⟩

/-- **The queues are as good as atomic**: what the threads log and where it leads, down to the steps
within the queues, is what they log, and where that leads, when an operation is one step. -/
theorem program_threads {n : Nat} {t : Threads} {pkts : List Packet} :
    (∃ T s, Run (program conf) (freshProgram n) T s ∧ s.view = t ∧ outputs T = es ∧
      sniffs (inputs T) = pkts) ↔
    ∃ T, Run (threads conf) (freshThreads n) T t ∧ outputs T = es ∧ sniffed (inputs T) = pkts := by
  constructor
  · rintro ⟨T, s, hrun, rfl, rfl, rfl⟩
    rw [← view_freshProgram]
    exact program_view (.fresh n) hrun
  · rintro ⟨T, hrun, rfl, rfl⟩
    have hsim := hrun.follows Threads.program Threads.Aims _ _
      (fun s b s' o h hs => threads_turn h hs) (by simp [Threads.Aims, freshThreads])
    rw [program_freshThreads] at hsim
    obtain ⟨-, T', hT', ho, hi⟩ := hsim
    exact ⟨T', t.program, hT', view_program t, ho, hi⟩

end Integratio
