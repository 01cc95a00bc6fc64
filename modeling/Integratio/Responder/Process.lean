import Integratio.Lib.Run
import Integratio.Responder.Machine

/-!
# `TCPResponder::processPacket`

`processPacket` in the order of the source: the layer check, the address fix-up, the
retransmission check, the updates of the local SEQ, of the last received packet and of the local
ACK, the binding of the stream by a SYN, and the event. Each update is a definition of its own
(`fixupAddr`, `retransmitted`, `updateSeq`, `record`, `updateAck`, `bindStream`, `eventOf`).
-/

namespace Integratio

namespace Machine

/-- The reply's addresses are filled in while its source is `0.0.0.0`. -/
def fixupAddr (m : Machine) (p : Packet) : Machine :=
  if m.ipS.srcAddr = 0 then
    { m with ipS := { srcAddr := p.ip.dstAddr, dstAddr := p.ip.srcAddr } }
  else m

/-- The packet has the ACK, SEQ, flags and payload of the last received one. -/
def retransmitted (m : Machine) (p : Packet) : Bool :=
  m.tcpR.ackSeq = p.tcp.ackSeq ∧ m.tcpR.seq = p.tcp.seq ∧ m.tcpR.flags = p.tcp.flags ∧
    p.tcp.payload = m.tcpR.payload

/-- `tcp_r->sport() == streamId`. -/
def ofStream (m : Machine) (p : Packet) : Bool := (p.tcp.sport.toNat : Int) = m.streamId

/-- "if client ACK bigger than local SEQ, I update local SEQ". -/
def updateSeq (m : Machine) (p : Packet) : Machine :=
  if p.tcp.ackSeq > m.tcpS.seq then
    if m.streamId = -1 then { m with tcpS := { m.tcpS with seq := p.tcp.ackSeq } }
    else if m.ofStream p then { m with tcpS := { m.tcpS with seq := p.tcp.ackSeq } }
    else m
  else m

/-- The last received packet. -/
def record (c : Config) (m : Machine) (p : Packet) : Machine :=
  { m with tcpR := m.tcpR.assign c.keepsInner p.tcp, ipR := p.ip }

/-- "If incoming packet has a payload, I update my local ACK". -/
def updateAck (m : Machine) (p : Packet) : Machine :=
  if p.tcp.payload.length > 0 ∧ m.ofStream p then
    { m with tcpS := { m.tcpS with
      ackSeq := m.tcpS.ackSeq + BitVec.ofNat 32 p.tcp.payload.length } }
  else m

/-- A SYN binds a machine without a stream. -/
def bindStream (m : Machine) (p : Packet) : Machine :=
  if p.tcp.flags = TCP.SYN ∧ m.streamId = -1 then { m with streamId := p.tcp.sport.toNat } else m

end Machine

/-- The event raised for a segment's flags. -/
def eventOf (flags : BitVec 12) : Option Event :=
  if flags = TCP.SYN then some .syn
  else if flags = TCP.PSH ||| TCP.ACK then some .pshAck
  else if flags = TCP.ACK then some .ack
  else if flags = TCP.FIN ||| TCP.ACK then some .finAck
  else none

namespace Machine

/-- Everything `processPacket` does before the event, for a packet that is not taken for a
retransmission. -/
def receive (c : Config) (m : Machine) (p : Packet) : Machine :=
  let m := m.fixupAddr p
  let m := m.updateSeq p
  let m := m.record c p
  let m := m.updateAck p
  m.bindStream p

def processPacket (c : Config) (m : Machine) (pdu : PDU) : Except Err (Machine × List Effect) :=
  match pdu.findTcp, pdu.findIp with
  | some tcp, some ip =>
    let p : Packet := ⟨ip, tcp⟩
    if (m.fixupAddr p).retransmitted p then .ok (m.fixupAddr p, [])
    else
      match eventOf tcp.flags with
      | none => .ok (m.receive c p, [])
      | some e => (m.receive c p).processEvent c e p
  -- no IP or no TCP layer
  | _, _ => .ok (m, [])

/-- A processed packet. -/
abbrev Step := Transducer.Transition Machine Packet Effect

end Machine

/-- One step of a responder over TCP/IP packets. -/
def Config.step (c : Config) (m : Machine) (p : Packet) : Except Err (Machine × List Effect) :=
  m.processPacket c p.pdu

/-- The states of a responder with configuration `c` that was started new. -/
def Config.Reachable (c : Config) (m : Machine) : Prop :=
  Transducer.Reach c.step Machine.start m

end Integratio
