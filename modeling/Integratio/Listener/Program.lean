import Integratio.Listener.Threads

/-!
# The threads and their queues

`threads` takes an operation of a queue as one step. Here the queues are the monitors of `wqueue`:
the sniffer's thread, which is thread 0 of every queue, and the thread of the queue's responder,
which is thread 1, call `add` and `remove`, wait for the mutex and for the signal, and return.
`forwardPacket` returns when `add` does, and a responder's thread processes what `remove` returned.
No thread catches anything, so a packet whose processing fails ends the process, with all its
threads (`Program.ended`).

`Program.view` is the state of `threads` behind a state of these threads: an operation of a queue
happens when its body runs.
-/

namespace Integratio

open Actors Transducer

/-- A queue between the sniffer's thread and a responder's. -/
abbrev Queue := Monitor.State (List Packet) (WqueueCall Packet) (WqueueResult Packet)

/-- A responder with its thread. -/
structure Thread where
  machine : Machine
  incomingQueue : Queue
  /-- What `remove` returned and the thread has not processed. -/
  pkt : Option Packet
  deriving DecidableEq, Repr

structure Program where
  dispatcher : Dispatcher
  responders : List Thread
  /-- The responder whose processing failed. -/
  ended : Option Nat
  deriving DecidableEq, Repr

inductive ProgramAct
  /-- `pktCallback` is called. -/
  | sniff (pkt : Packet)
  /-- The next look of `forwardPacket` at a responder. -/
  | look
  /-- A step of thread `t` in the `k`-th queue. -/
  | queue (k t : Nat) (mv : Monitor.Move (WqueueCall Packet))
  | process (k : Nat)
  deriving DecidableEq, Repr

/-- The calls that the program makes: the sniffer's thread adds the packet to the queue that it
found, and a responder's thread removes when it has processed. Within a call a thread goes on. -/
def Thread.calls (d : Dispatcher) (k : Nat) (w : Thread) (t : Nat) :
    Monitor.Move (WqueueCall Packet) → Bool
  | .call (.add pkt) => t = 0 ∧ d = .adding pkt k
  | .call .remove => t = 1 ∧ w.pkt = none
  | .call .size => false
  | _ => true

/-- `forwardPacket` returns when `add` does. -/
def Dispatcher.returns (d : Dispatcher) :
    List (Monitor.Event (WqueueCall Packet) (WqueueResult Packet)) → Dispatcher
  | [.returned _ (.add _) _] => .sniffing
  | _ => d

def Thread.returns (w : Thread) :
    List (Monitor.Event (WqueueCall Packet) (WqueueResult Packet)) → Thread
  | [.returned _ .remove (.item pkt)] => { w with pkt := pkt }
  | _ => w

def Thread.removed (w : Thread) : Option Packet :=
  match w.incomingQueue.result 1 with
  | some (.item pkt) => pkt
  | _ => none

/-- The responder with its queue's operations atomic. -/
def Thread.worker (w : Thread) : Worker :=
  ⟨w.machine, w.incomingQueue.data, w.pkt <|> w.removed⟩

/-- A step of one thread. The looks are those of `threads`. -/
def program (conf : Nat → Config) (s : Program) (a : ProgramAct) :
    Except (Stuck Halt) (Program × List (Entry Machine Packet Effect)) :=
  match s.ended, a with
  | some _, _ => .error .idle
  | none, .sniff pkt =>
    match s.dispatcher with
    | .sniffing => .ok ({ s with dispatcher := .stream pkt 0 }, [])
    | _ => .error .idle
  | none, .look =>
    match s.dispatcher with
    | .adding .. => .error .idle
    | d =>
      match threads conf ⟨d, s.responders.map Thread.worker⟩ .look with
      | .error e => .error e
      | .ok (s', es) => .ok ({ s with dispatcher := s'.dispatcher }, es)
  | none, .queue k t mv =>
    match s.responders[k]? with
    | none => .error .idle
    | some w =>
      if w.calls s.dispatcher k t mv then
        match Monitor.step wqueue w.incomingQueue (t, mv) with
        | .error _ => .error .idle
        | .ok (q, es) =>
          let w' : Thread := { w with incomingQueue := q }
          .ok ({ s with
            dispatcher := s.dispatcher.returns es
            responders := s.responders.set k (w'.returns es) }, [])
      else .error .idle
  | none, .process k =>
    match s.responders[k]? with
    | some ⟨m, q, some p⟩ =>
      match (conf k).startListen m p with
      | .error _ => .ok ({ s with ended := some k }, [])
      | .ok (m', o) =>
        .ok ({ s with responders := s.responders.set k ⟨m', q, none⟩ }, [.served k ⟨m, p, m', o⟩])
    | _ => .error .idle

abbrev ProgramStep := Transition Program ProgramAct (Entry Machine Packet Effect)

/-- The program with `n` responders after `Listener::start`. -/
def freshProgram (n : Nat) : Program :=
  ⟨.sniffing, List.replicate n ⟨.start, Monitor.idle 2 [], none⟩, none⟩

/-! ## The steps -/

inductive Proceeds (conf : Nat → Config) (s : Program) :
    ProgramAct → Program → List (Entry Machine Packet Effect) → Prop
  | sniff (pkt : Packet) : s.dispatcher = .sniffing →
      Proceeds conf s (.sniff pkt) { s with dispatcher := .stream pkt 0 } []
  | look (s' : Threads) (es : List (Entry Machine Packet Effect)) :
      (∀ pkt k, s.dispatcher ≠ .adding pkt k) →
      threads conf ⟨s.dispatcher, s.responders.map Thread.worker⟩ .look = .ok (s', es) →
      Proceeds conf s .look { s with dispatcher := s'.dispatcher } es
  | queue (k t : Nat) (mv : Monitor.Move (WqueueCall Packet)) (m : Machine) (q q' : Queue)
      (p : Option Packet) (es : List (Monitor.Event (WqueueCall Packet) (WqueueResult Packet))) :
      s.responders[k]? = some ⟨m, q, p⟩ → Thread.calls s.dispatcher k ⟨m, q, p⟩ t mv = true →
      Monitor.step wqueue q (t, mv) = .ok (q', es) →
      Proceeds conf s (.queue k t mv)
        { s with
          dispatcher := s.dispatcher.returns es
          responders := s.responders.set k (Thread.returns ⟨m, q', p⟩ es) } []
  | process (k : Nat) (m : Machine) (q : Queue) (p : Packet) (m' : Machine) (o : List Effect) :
      s.responders[k]? = some ⟨m, q, some p⟩ → (conf k).startListen m p = .ok (m', o) →
      Proceeds conf s (.process k) { s with responders := s.responders.set k ⟨m', q, none⟩ }
        [.served k ⟨m, p, m', o⟩]
  | fail (k : Nat) (m : Machine) (q : Queue) (p : Packet) (e : Halt) :
      s.responders[k]? = some ⟨m, q, some p⟩ → (conf k).startListen m p = .error e →
      Proceeds conf s (.process k) { s with ended := some k } []

variable {conf : Nat → Config} {s s' : Program} {a : ProgramAct}
  {es : List (Entry Machine Packet Effect)}

theorem program_alive (h : program conf s a = .ok (s', es)) : s.ended = none := by
  unfold program at h
  split at h
  · cases h
  all_goals assumption

theorem program_proceeds (h : program conf s a = .ok (s', es)) : Proceeds conf s a s' es := by
  obtain ⟨d, ws, ended⟩ := s
  obtain rfl : ended = none := program_alive h
  cases a with
  | sniff pkt =>
    simp only [program] at h
    split at h
    · cases h
      exact .sniff pkt rfl
    · cases h
  | look =>
    simp only [program] at h
    split at h
    · cases h
    · rename_i hd
      split at h
      · cases h
      · rename_i s₁ es₁ hs
        cases h
        exact .look s₁ _ hd hs
  | queue k t mv =>
    simp only [program] at h
    split at h
    · cases h
    · rename_i w hk
      split at h
      · rename_i hc
        split at h
        · cases h
        · rename_i q' es₁ hs
          cases h
          exact .queue k t mv w.machine w.incomingQueue q' w.pkt es₁ hk hc hs
      · cases h
  | process k =>
    simp only [program] at h
    split at h
    · rename_i m q p hk
      split at h
      · rename_i e hs
        cases h
        exact .fail k m q p e hk hs
      · rename_i m' o hs
        cases h
        exact .process k m q p m' o hk hs
    · cases h

/-! ## The threads behind the program -/

/-- The `add` to the `k`-th queue has run its body. -/
def hasAdded (ws : List Thread) (k : Nat) : Bool :=
  ws[k]?.any fun w => (w.incomingQueue.result 0).isSome

def Dispatcher.view (ws : List Thread) : Dispatcher → Dispatcher
  | .adding pkt k => if hasAdded ws k then .sniffing else .adding pkt k
  | d => d

def Program.view (s : Program) : Threads :=
  ⟨s.dispatcher.view s.responders, s.responders.map Thread.worker⟩

/-- The program with all queues idle. -/
def Threads.program (s : Threads) : Program :=
  ⟨s.dispatcher, s.responders.map fun w =>
    ⟨w.machine, Monitor.idle 2 w.incomingQueue, w.pkt⟩, none⟩

theorem program_freshThreads (n : Nat) : (freshThreads n).program = freshProgram n := by
  simp [freshThreads, Threads.program, freshProgram]

theorem view_freshProgram (n : Nat) : (freshProgram n).view = freshThreads n := by
  simp [freshThreads, Program.view, freshProgram, Dispatcher.view, Thread.worker, Thread.removed,
    Monitor.idle, Monitor.State.result, Monitor.Pc.result]

theorem view_program (s : Threads) : s.program.view = s := by
  obtain ⟨d, ws⟩ := s
  have hadded : ∀ k, hasAdded (Threads.program ⟨d, ws⟩).responders k = false := by
    intro k
    cases hk : ws[k]? <;>
      simp [hasAdded, Threads.program, Monitor.idle, Monitor.State.result, Monitor.Pc.result, hk]
  have hd : d.view (Threads.program ⟨d, ws⟩).responders = d := by
    cases d with
    | adding pkt k => simp [Dispatcher.view, hadded k]
    | _ => rfl
  have hws : (Threads.program ⟨d, ws⟩).responders.map Thread.worker = ws := by
    simp [Threads.program, Thread.worker, Thread.removed, Function.comp_def, Monitor.idle,
      Monitor.State.result, Monitor.Pc.result]
  exact congrArg₂ Threads.mk hd hws

end Integratio
