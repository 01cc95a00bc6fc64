import Integratio.Listener.System

/-!
# The path of a sniffed packet

`system` is about packets with an IP and a TCP layer. A sniffed packet is a `PDU`, which may lack
either; a layer that `find_pdu` does not find is a null pointer, and to use it is a `Fault`. Here
the path `pktCallback`, `forwardPacket`, `startListen` is modelled over PDUs, with every use of a
layer in the order of the source; `processPacket` is that of `Responder/Process.lean`, which checks
both layers itself. `Sniffed.system` is the interleaving of `system` over this path.
-/

namespace Integratio

open Actors Transducer

namespace Sniffed

/-- Why the sniffer or a thread stops: it uses a null pointer, or for a reason of `startListen`. -/
inductive Fault
  | nullPointer
  | halt (h : Halt)
  deriving DecidableEq, Repr

/-- The use of what `find_pdu` returned. -/
def deref {α : Type} : Option α → Except Fault α
  | some layer => .ok layer
  | none => .error .nullPointer

/-- A responder's machine and its `incomingQueue`. -/
abbrev Responder := Actor Machine PDU

/-! ## The sniffer's thread -/

def forwardPacket (responders : List Responder) :
    Option PDU → Except Fault (List Responder × Bool)
  -- "The pkt does not have TCP layer."
  | none => .ok (responders, false)
  | some pkt =>
    match deref pkt.findTcp with
    | .error e => .error e
    | .ok tcp_r =>
      match responders.findIdx? (·.state.getId = (tcp_r.sport.toNat : Int)) with
      | some k => .ok (push responders k pkt, true)
      | none =>
        match responders.findIdx? (·.state.getId = -1) with
        | some k => .ok (push responders k pkt, true)
        -- all responders are busy
        | none => .ok (responders, false)

/-- `pktCallback` forwards a clone of the packet and lets the sniffer go on. -/
def pktCallback (responders : List Responder) (pdu : PDU) :
    Except Fault (List Responder × Bool) :=
  match forwardPacket responders (some pdu) with
  | .error e => .error e
  | .ok (rs, _) => .ok (rs, true)

/-! ## A responder's thread -/

/-- The debug loop of `startListen`: once for each inner PDU, the ports and addresses of `pkt`. -/
def logPacket (pkt : PDU) : PDU → Except Fault Unit
  | [] => .ok ()
  | _ :: inner =>
    match deref pkt.findIp, deref pkt.findTcp with
    | .ok _, .ok _ => logPacket pkt inner
    | _, _ => .error .nullPointer

/-- `flags` of `common.cpp`, which checks its argument. -/
def flags : Option TCP → String
  | none => ""
  | some t => Integratio.flags t.flags

/-- One turn of the loop of `startListen`, with the packet that `remove` returned. -/
def startListen (c : Config) (m : Machine) (pkt : PDU) : Except Fault (Machine × List Effect) :=
  match logPacket pkt pkt.tail with
  | .error e => .error e
  | .ok () =>
    if flags pkt.findTcp = "ZFA" then .error (.halt .returned)
    else
      match m.processPacket c pkt with
      | .error e => .error (.halt (.failed e))
      | .ok r => .ok r

/-! ## The system -/

/-- The responder that `forwardPacket` picks. -/
def routed (ms : List Machine) (pdu : PDU) : Option Nat :=
  match pdu.findTcp with
  | some tcp => route ms ⟨{}, tcp⟩
  | none => none

/-- The steps of the sniffer and the responders' threads. -/
def system (conf : Nat → Config) (rs : List Responder) :
    Act PDU → Except (Stuck Fault) (List Responder × List (Entry Machine PDU Effect))
  | .arrive pdu =>
    match pktCallback rs pdu with
    | .error e => .error (.failed e)
    | .ok (rs', _) => .ok (rs', [.routed pdu (routed (states rs) pdu)])
  | .serve k => step routed (fun k => startListen (conf k)) rs (.serve k)

/-- `n` responders that were just started. -/
def fresh (n : Nat) : List Responder := List.replicate n ⟨Machine.start, []⟩

/-! ## Lemmas -/

variable {c : Config} {conf : Nat → Config} {m : Machine} {rs rs' : List Responder} {pdu : PDU}

@[simp] theorem deref_some {α : Type} (layer : α) : deref (some layer) = .ok layer := rfl
@[simp] theorem deref_none {α : Type} : deref (none : Option α) = .error .nullPointer := rfl

/-- With a TCP layer the packet goes to the responder of `route`, if there is one. -/
theorem pktCallback_tcp {tcp : TCP} (h : pdu.findTcp = some tcp) :
    pktCallback rs pdu =
      .ok (match routed (states rs) pdu with
        | some k => push rs k pdu
        | none => rs, true) := by
  simp only [pktCallback, forwardPacket, h, deref_some, routed, route, states, List.findIdx?_map,
    Function.comp_def]
  cases rs.findIdx? (·.state.getId = (tcp.sport.toNat : Int)) with
  | some k => rfl
  | none => cases rs.findIdx? (·.state.getId = -1) <;> rfl

/-- Without one the sniffer's thread stops. -/
theorem pktCallback_null (h : pdu.findTcp = none) :
    pktCallback rs pdu = .error .nullPointer := by
  simp only [pktCallback, forwardPacket, h, deref_none]

theorem system_null (h : pdu.findTcp = none) :
    system conf rs (.arrive pdu) = .error (.failed .nullPointer) := by
  simp only [system, pktCallback_null h]

theorem system_tcp {tcp : TCP} (h : pdu.findTcp = some tcp) :
    system conf rs (.arrive pdu) =
      step routed (fun k => startListen (conf k)) rs (.arrive pdu) := by
  simp only [system, pktCallback_tcp h, step]
  cases routed (states rs) pdu <;> rfl

/-- The debug loop needs both layers as soon as there is an inner PDU. -/
theorem logPacket_eq (pkt inner : PDU) :
    logPacket pkt inner =
      if inner = [] ∨ (pkt.findIp.isSome ∧ pkt.findTcp.isSome) then .ok ()
      else .error .nullPointer := by
  induction inner with
  | nil => rfl
  | cons l inner ih =>
    unfold logPacket
    cases hi : pkt.findIp with
    | none => simp
    | some ip =>
      cases ht : pkt.findTcp with
      | none => simp
      | some tcp => simpa [hi, ht] using ih

/-- `processPacket` skips a packet without a TCP layer. -/
theorem processPacket_skips (h : pdu.findTcp = none) : m.processPacket c pdu = .ok (m, []) := by
  unfold Machine.processPacket
  rw [h]

/-- A thread that got a packet without a TCP layer would stop too, unless it has one layer only. -/
theorem startListen_null (h : pdu.findTcp = none) :
    startListen c m pdu = if pdu.tail = [] then .ok (m, []) else .error .nullPointer := by
  unfold startListen
  rw [logPacket_eq, processPacket_skips h, h]
  by_cases ht : pdu.tail = []
  · simp [ht, flags]
  · simp [ht]

end Sniffed

end Integratio
