import Mathlib.Data.BitVec

/-!
# Packets (libtins)

The fields of libtins' `IP` and `TCP` that the responder reads or writes; a field that no code
under `src/` touches (window, options, TTL) keeps its default and is left out. A segment's
`RawPDU` layer is its `payload`, empty when there is no such layer: libtins attaches a `RawPDU`
only for payload bytes. The defaults are those of `IP()` and `TCP()`.
-/

namespace Integratio

abbrev Bytes := List UInt8

/-- The addresses of an `IP` layer; `0` is `0.0.0.0`. -/
structure IP where
  srcAddr : BitVec 32 := 0
  dstAddr : BitVec 32 := 0
  deriving DecidableEq, Repr

/-- A `TCP` layer and the payload below it. -/
structure TCP where
  sport : BitVec 16 := 0
  dport : BitVec 16 := 0
  seq : BitVec 32 := 0
  ackSeq : BitVec 32 := 0
  flags : BitVec 12 := 0
  payload : Bytes := []
  deriving DecidableEq, Repr

namespace TCP

def FIN : BitVec 12 := 0x01
def SYN : BitVec 12 := 0x02
def RST : BitVec 12 := 0x04
def PSH : BitVec 12 := 0x08
def ACK : BitVec 12 := 0x10
def URG : BitVec 12 := 0x20
def ECE : BitVec 12 := 0x40
def CWR : BitVec 12 := 0x80

/-- `operator=` of a TCP layer. libtins' `PDU::operator=` clones the inner PDU of its argument
when there is one; `keepsInner` says what it leaves when there is none: the old inner PDU
(`copy_inner_pdu` does nothing) or none. -/
def assign (keepsInner : Bool) (old new : TCP) : TCP :=
  if new.payload = [] ∧ keepsInner = true then { new with payload := old.payload } else new

variable (keep : Bool) (old new : TCP)

@[simp] theorem assign_seq : (assign keep old new).seq = new.seq := by unfold assign; split <;> rfl
@[simp] theorem assign_ackSeq : (assign keep old new).ackSeq = new.ackSeq := by
  unfold assign; split <;> rfl
@[simp] theorem assign_flags : (assign keep old new).flags = new.flags := by
  unfold assign; split <;> rfl
@[simp] theorem assign_sport : (assign keep old new).sport = new.sport := by
  unfold assign; split <;> rfl
@[simp] theorem assign_dport : (assign keep old new).dport = new.dport := by
  unfold assign; split <;> rfl

theorem assign_payload (h : new.payload ≠ []) : (assign keep old new).payload = new.payload := by
  simp [assign, h]

end TCP

/-- A packet with an IP and a TCP layer. -/
structure Packet where
  ip : IP
  tcp : TCP
  deriving DecidableEq, Repr

/-- One layer of a sniffed packet. -/
inductive Layer
  | ip (h : IP)
  | tcp (h : TCP)
  | other
  deriving DecidableEq, Repr

/-- A packet as the sniffer hands it over: its layers, outermost first. -/
abbrev PDU := List Layer

/-- `find_pdu<IP>()`. -/
def PDU.findIp (p : PDU) : Option IP := p.findSome? fun | .ip h => some h | _ => none

/-- `find_pdu<TCP>()`. -/
def PDU.findTcp (p : PDU) : Option TCP := p.findSome? fun | .tcp h => some h | _ => none

/-- A TCP/IP packet on the wire: a link layer, IP and TCP. -/
def Packet.pdu (p : Packet) : PDU := [.other, .ip p.ip, .tcp p.tcp]

@[simp] theorem findIp_pdu (p : Packet) : p.pdu.findIp = some p.ip := rfl
@[simp] theorem findTcp_pdu (p : Packet) : p.pdu.findTcp = some p.tcp := rfl

end Integratio
