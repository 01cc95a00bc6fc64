import Integratio.Tins.Packet

/-!
# The state machine of a responder (`integratio_`)

The Boost.MSM machine of `responder.cpp`: its states with their entry and exit hooks, its
transition table and the actions. `processEvent` is MSM's `process_event`: the row of the
current state and the event, if there is one, runs the exit hook, the action and the entry hook,
and only then is the current state changed; an event without a row is dropped
(`no_transition`). What an action does to the outside is a list of `Effect`s, in order.

The states that no row of the table mentions (`FIN_WAIT_1`, `TIME_WAIT`, …) are never entered
and are left out; their names stay in `stateNames`, which is indexed by MSM's state ids.
-/

namespace Integratio

inductive State
  | listen
  | synRcvd
  | established
  | closeWait
  deriving DecidableEq, Repr

inductive Event
  | syn
  | ack
  | pshAck
  | finAck
  deriving DecidableEq, Repr

inductive Action
  | sendSynAck
  | sendData
  | sendFinAck
  deriving DecidableEq, Repr

/-- A row of the transition table; `action` is `none` in a `_row`. -/
structure Row where
  start : State
  event : Event
  next : State
  action : Option Action
  deriving DecidableEq, Repr

def transitionTable : List Row :=
  [⟨.listen, .syn, .synRcvd, some .sendSynAck⟩,
   ⟨.synRcvd, .ack, .established, none⟩,
   ⟨.established, .pshAck, .established, some .sendData⟩,
   ⟨.established, .finAck, .closeWait, some .sendFinAck⟩,
   ⟨.closeWait, .ack, .listen, none⟩]

/-- MSM numbers the start states of the table in the order of their first row. -/
def State.id (s : State) : Nat := (transitionTable.map (·.start)).eraseDups.idxOf s

def stateNames : List String :=
  ["LISTEN", "SYN_RCVD", "ESTABLISHED", "FIN_WAIT_1", "TIME_WAIT", "CLOSING", "CLOSED",
   "SYN_SENT", "CLOSE_WAIT", "LAST_ACK"]

/-- One entry of a `time` configuration. -/
structure TimeConf where
  state : String
  action : String
  delay : Int
  deriving DecidableEq, Repr

/-- What a responder's code runs against: its applicator (`none` when `httz` is `NULL`), which
returns on every request (`TCPResponder` has one that may throw), its time configurations, and how
libtins assigns layers (`TCP.assign`). -/
structure Config where
  httz : Option (Bytes → Bytes) := none
  timeTests : List TimeConf := []
  keepsInner : Bool := false

/-- What a step does to the outside: a call of `httz->getResponse`, a `sleep_for` of some
seconds, or a packet handed to the sender. -/
inductive Effect
  | getResponse (request : Bytes)
  | sleep (delay : Int)
  | send (pkt : Packet)
  deriving DecidableEq, Repr

/-- The packets among the effects. -/
def sent (es : List Effect) : List Packet := es.filterMap fun | .send p => some p | _ => none

/-- The requests handed to the applicator among the effects. -/
def requests (es : List Effect) : List Bytes :=
  es.filterMap fun | .getResponse r => some r | _ => none

/-- The error of the machine: `rfind_pdu<RawPDU>()` throws on a segment without a payload, which
MSM turns into a failed assertion. -/
inductive Err
  | pduNotFound
  deriving DecidableEq, Repr

/-- The fields of `integratio_`: MSM's current state, the last received packet, the packet to be
sent and the stream. -/
structure Machine where
  state : State := .listen
  ipR : IP := {}
  tcpR : TCP := {}
  ipS : IP := {}
  tcpS : TCP := {}
  streamId : Int := -1
  deriving DecidableEq, Repr

namespace Machine

/-! ## Entry and exit hooks -/

/-- The sequence number set on entering `LISTEN`. -/
def initialSeq : BitVec 32 := 31331

def onEntry (s : State) (m : Machine) : Machine :=
  match s with
  | .listen => { m with ipS := {}, tcpS := { ({} : TCP) with seq := initialSeq }, streamId := -1 }
  | _ => m

def onExit (s : State) (m : Machine) : Machine :=
  match s with
  | .listen =>
    { m with
      tcpS := { m.tcpS with
        sport := m.tcpR.dport, dport := m.tcpR.sport, ackSeq := m.tcpR.seq + 1 }
      ipS := { srcAddr := m.ipR.dstAddr, dstAddr := m.ipR.srcAddr } }
  | .closeWait => { m with tcpS := {}, ipS := {}, ipR := {}, tcpR := {} }
  | _ => m

/-- The machine of a new `TCPResponder`: `start()` enters the initial state. -/
def start : Machine := onEntry .listen {}

/-! ## Actions -/

/-- `pstate`: the name of the current state. -/
def pstate (m : Machine) : String := stateNames[m.state.id]?.getD ""

/-- `TCPResponder::send`: the delays configured for this action and state, then the packet, which
`PacketSender::send` is taken to send. -/
def send (c : Config) (m : Machine) (pkt : Packet) (currAction : String) : List Effect :=
  (c.timeTests.filter fun t => currAction = t.action ∧ m.pstate = t.state).map (.sleep ·.delay) ++
    [.send pkt]

def sendSynAck (c : Config) (m : Machine) : Except Err (Machine × List Effect) :=
  let m := { m with tcpS := { m.tcpS with flags := TCP.SYN ||| TCP.ACK } }
  .ok (m, m.send c ⟨m.ipS, m.tcpS⟩ "sendSynAck")

/-- `httz->getResponse`, `""` without an applicator. -/
def respond (c : Config) (request : Bytes) : Bytes :=
  match c.httz with
  | some getResponse => getResponse request
  | none => []

def sendData (c : Config) (m : Machine) (p : Packet) : Except Err (Machine × List Effect) :=
  -- rfind_pdu<RawPDU>() throws
  if p.tcp.payload = [] then .error .pduNotFound
  else
    let asked := if c.httz.isSome then [.getResponse p.tcp.payload] else []
    let m := { m with tcpS := { m.tcpS with flags := TCP.ACK } }
    .ok (m, asked ++
      m.send c ⟨m.ipS, { m.tcpS with payload := respond c p.tcp.payload }⟩ "sendData")

def sendFinAck (c : Config) (m : Machine) : Except Err (Machine × List Effect) :=
  let m := { m with
    tcpS := { m.tcpS with flags := TCP.FIN ||| TCP.ACK, ackSeq := m.tcpR.seq + 1 } }
  .ok (m, m.send c ⟨m.ipS, m.tcpS⟩ "sendFinAck")

def act (c : Config) (m : Machine) (p : Packet) :
    Option Action → Except Err (Machine × List Effect)
  | none => .ok (m, [])
  | some .sendSynAck => m.sendSynAck c
  | some .sendData => m.sendData c p
  | some .sendFinAck => m.sendFinAck c

/-! ## Events -/

def row? (s : State) (e : Event) : Option Row :=
  transitionTable.find? fun r => r.start = s ∧ r.event = e

/-- MSM's `process_event`. -/
def processEvent (c : Config) (m : Machine) (e : Event) (p : Packet) :
    Except Err (Machine × List Effect) :=
  match row? m.state e with
  | none => .ok (m, [])
  | some r =>
    match (onExit r.start m).act c p r.action with
    | .error e => .error e
    | .ok (m, out) => .ok ({ onEntry r.next m with state := r.next }, out)

end Machine

/-! ## Lemmas -/

@[simp] theorem sent_nil : sent [] = [] := rfl
@[simp] theorem requests_nil : requests [] = [] := rfl
@[simp] theorem sent_append (es fs : List Effect) : sent (es ++ fs) = sent es ++ sent fs :=
  List.filterMap_append
@[simp] theorem requests_append (es fs : List Effect) :
    requests (es ++ fs) = requests es ++ requests fs := List.filterMap_append

theorem mem_sent {es : List Effect} {p : Packet} : p ∈ sent es ↔ .send p ∈ es := by
  simp only [sent, List.mem_filterMap]
  refine ⟨fun ⟨e, he, hp⟩ => ?_, fun h => ⟨_, h, rfl⟩⟩
  cases e <;> simp at hp
  rwa [← hp]

@[simp] theorem sent_send (c : Config) (m : Machine) (pkt : Packet) (a : String) :
    sent (m.send c pkt a) = [pkt] := by
  simp only [Machine.send, sent_append, List.append_eq_singleton_iff]
  exact .inl ⟨by simp [sent], rfl⟩

@[simp] theorem requests_send (c : Config) (m : Machine) (pkt : Packet) (a : String) :
    requests (m.send c pkt a) = [] := by
  simp only [Machine.send, requests_append, List.append_eq_nil_iff]
  exact ⟨by simp [requests], rfl⟩

@[simp] theorem sent_ask (b : Bool) (r : Bytes) :
    sent (if b = true then [.getResponse r] else []) = [] := by
  cases b <;> rfl

@[simp] theorem requests_ask (b : Bool) (r : Bytes) :
    requests (if b = true then [.getResponse r] else []) = if b = true then [r] else [] := by
  cases b <;> rfl

end Integratio
