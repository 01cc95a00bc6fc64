import Integratio.Listener.Queue
import Integratio.Listener.System

/-!
# The threads of the listener

`system` takes a `forwardPacket` and a turn of a responder's thread as one step each. Here they are
taken apart. The sniffer's thread looks at the stream of one responder after another, in two loops,
and then adds the packet to the queue that it found; a responder's thread removes a packet from its
queue and then processes it. Between two such steps any other thread may take steps of its own, so
what the sniffer's thread saw of a responder may have changed when it adds the packet. The
operations of the queues stay atomic (`wqueue_linearizable`).
-/

namespace Integratio

open Actors Transducer

/-- Where the sniffer's thread is. -/
inductive Dispatcher
  /-- In `sniff_loop`. -/
  | sniffing
  /-- In the first loop of `forwardPacket`, before the `i`-th responder. -/
  | stream (pkt : Packet) (i : Nat)
  /-- In the second loop. -/
  | free (pkt : Packet) (i : Nat)
  /-- Before the `add` to the `k`-th queue. -/
  | adding (pkt : Packet) (k : Nat)
  deriving DecidableEq, Repr

/-- A responder, and the packet that its thread has removed and not processed. -/
structure Worker where
  machine : Machine
  incomingQueue : List Packet
  pkt : Option Packet
  deriving DecidableEq, Repr

structure Threads where
  dispatcher : Dispatcher
  responders : List Worker
  deriving DecidableEq, Repr

inductive ThreadAct
  /-- `pktCallback` is called. -/
  | sniff (pkt : Packet)
  /-- The next step of `forwardPacket`. -/
  | look
  | remove (k : Nat)
  | process (k : Nat)
  deriving DecidableEq, Repr

/-- A packet is logged as routed by the look at a responder that decides. -/
def threads (conf : Nat → Config) (s : Threads) :
    ThreadAct → Except (Stuck Halt) (Threads × List (Entry Machine Packet Effect))
  | .sniff pkt =>
    match s.dispatcher with
    | .sniffing => .ok ({ s with dispatcher := .stream pkt 0 }, [])
    | _ => .error .idle
  | .look =>
    match s.dispatcher with
    | .sniffing => .error .idle
    | .stream pkt i =>
      match s.responders[i]? with
      | none => .ok ({ s with dispatcher := .free pkt 0 }, [])
      | some w =>
        if w.machine.getId = pkt.tcp.sport.toNat then
          .ok ({ s with dispatcher := .adding pkt i }, [.routed pkt (some i)])
        else .ok ({ s with dispatcher := .stream pkt (i + 1) }, [])
    | .free pkt i =>
      match s.responders[i]? with
      -- all responders are busy
      | none => .ok ({ s with dispatcher := .sniffing }, [.routed pkt none])
      | some w =>
        if w.machine.getId = -1 then
          .ok ({ s with dispatcher := .adding pkt i }, [.routed pkt (some i)])
        else .ok ({ s with dispatcher := .free pkt (i + 1) }, [])
    | .adding pkt k =>
      let add (w : Worker) : Worker :=
        { w with incomingQueue := (wqueue.body (.add pkt) w.incomingQueue).1 }
      .ok (⟨.sniffing, s.responders.modify k add⟩, [])
  | .remove k =>
    match s.responders[k]? with
    | some ⟨m, q, none⟩ =>
      match Monitor.atomic wqueue q .remove with
      | .ok (q', [(_, .item (some p))]) =>
        .ok ({ s with responders := s.responders.set k ⟨m, q', some p⟩ }, [])
      | _ => .error .idle
    | _ => .error .idle
  | .process k =>
    match s.responders[k]? with
    | some ⟨m, q, some p⟩ =>
      match (conf k).startListen m p with
      | .error e => .error (.failed e)
      | .ok (m', o) =>
        .ok ({ s with responders := s.responders.set k ⟨m', q, none⟩ }, [.served k ⟨m, p, m', o⟩])
    | _ => .error .idle

abbrev ThreadStep := Transition Threads ThreadAct (Entry Machine Packet Effect)

/-- The threads of `n` responders that were just started. -/
def freshThreads (n : Nat) : Threads := ⟨.sniffing, List.replicate n ⟨.start, [], none⟩⟩

/-! ## The steps -/

inductive Turns (conf : Nat → Config) (s : Threads) :
    ThreadAct → Threads → List (Entry Machine Packet Effect) → Prop
  | sniff (pkt : Packet) : s.dispatcher = .sniffing →
      Turns conf s (.sniff pkt) { s with dispatcher := .stream pkt 0 } []
  | passStream (pkt : Packet) (i : Nat) (w : Worker) : s.dispatcher = .stream pkt i →
      s.responders[i]? = some w → w.machine.getId ≠ pkt.tcp.sport.toNat →
      Turns conf s .look { s with dispatcher := .stream pkt (i + 1) } []
  | second (pkt : Packet) (i : Nat) : s.dispatcher = .stream pkt i → s.responders[i]? = none →
      Turns conf s .look { s with dispatcher := .free pkt 0 } []
  | passFree (pkt : Packet) (i : Nat) (w : Worker) : s.dispatcher = .free pkt i →
      s.responders[i]? = some w → w.machine.getId ≠ -1 →
      Turns conf s .look { s with dispatcher := .free pkt (i + 1) } []
  | found (pkt : Packet) (i : Nat) (w : Worker) : s.responders[i]? = some w →
      (s.dispatcher = .stream pkt i ∧ w.machine.getId = pkt.tcp.sport.toNat ∨
        s.dispatcher = .free pkt i ∧ w.machine.getId = -1) →
      Turns conf s .look { s with dispatcher := .adding pkt i } [.routed pkt (some i)]
  | refused (pkt : Packet) (i : Nat) : s.dispatcher = .free pkt i → s.responders[i]? = none →
      Turns conf s .look { s with dispatcher := .sniffing } [.routed pkt none]
  | add (pkt : Packet) (k : Nat) : s.dispatcher = .adding pkt k →
      Turns conf s .look
        ⟨.sniffing, s.responders.modify k fun w =>
          { w with incomingQueue := w.incomingQueue ++ [pkt] }⟩ []
  | remove (k : Nat) (m : Machine) (p : Packet) (q : List Packet) :
      s.responders[k]? = some ⟨m, p :: q, none⟩ →
      Turns conf s (.remove k) { s with responders := s.responders.set k ⟨m, q, some p⟩ } []
  | process (k : Nat) (m : Machine) (p : Packet) (q : List Packet) (m' : Machine)
      (o : List Effect) : s.responders[k]? = some ⟨m, q, some p⟩ →
      (conf k).startListen m p = .ok (m', o) →
      Turns conf s (.process k) { s with responders := s.responders.set k ⟨m', q, none⟩ }
        [.served k ⟨m, p, m', o⟩]

variable {conf : Nat → Config} {s s' : Threads} {act : ThreadAct}
  {es : List (Entry Machine Packet Effect)}

theorem threads_turns (h : threads conf s act = .ok (s', es)) : Turns conf s act s' es := by
  cases act with
  | sniff pkt =>
    simp only [threads] at h
    split at h
    · rename_i hd
      cases h
      exact .sniff pkt hd
    · cases h
  | look =>
    simp only [threads] at h
    split at h
    · cases h
    · rename_i pkt i hd
      split at h
      · rename_i hi
        cases h
        exact .second pkt i hd hi
      · rename_i w hi
        split at h
        · rename_i hid
          cases h
          exact .found pkt i w hi (.inl ⟨hd, hid⟩)
        · rename_i hid
          cases h
          exact .passStream pkt i w hd hi hid
    · rename_i pkt i hd
      split at h
      · rename_i hi
        cases h
        exact .refused pkt i hd hi
      · rename_i w hi
        split at h
        · rename_i hid
          cases h
          exact .found pkt i w hi (.inr ⟨hd, hid⟩)
        · rename_i hid
          cases h
          exact .passFree pkt i w hd hi hid
    · rename_i pkt k hd
      cases h
      exact .add pkt k hd
  | remove k =>
    simp only [threads] at h
    split at h
    · rename_i m q hk
      cases q with
      | nil => cases h
      | cons p q =>
        cases h
        exact .remove k m p q hk
    · cases h
  | process k =>
    simp only [threads] at h
    split at h
    · rename_i m q p hk
      split at h
      · cases h
      · rename_i m' o hs
        cases h
        exact .process k m p q m' o hk hs
    · cases h

/-! ## The system behind the threads -/

/-- The packet that is to be added to the `k`-th queue. -/
def Dispatcher.pending (d : Dispatcher) (k : Nat) : List Packet :=
  match d with
  | .adding pkt j => if j = k then [pkt] else []
  | _ => []

/-- The packet whose responder is still looked for. -/
def Dispatcher.scanned : Dispatcher → List Packet
  | .stream pkt _ | .free pkt _ => [pkt]
  | _ => []

/-- The responder of the system: its queue is what waits for it, in the order in which it will
process it. -/
def Worker.responder (d : Dispatcher) (k : Nat) (w : Worker) : Responder :=
  ⟨w.machine, w.pkt.toList ++ w.incomingQueue ++ d.pending k⟩

def Threads.system (s : Threads) : List Responder :=
  s.responders.mapIdx fun k w => w.responder s.dispatcher k

theorem system_getElem? (s : Threads) (k : Nat) :
    s.system[k]? = s.responders[k]?.map (Worker.responder s.dispatcher k) := by
  simp [Threads.system]

theorem system_freshThreads (n : Nat) : (freshThreads n).system = fresh n := by
  refine List.ext_getElem? fun k => ?_
  by_cases hk : k < n <;>
    simp [system_getElem?, freshThreads, fresh, hk, Worker.responder, Dispatcher.pending]

end Integratio
