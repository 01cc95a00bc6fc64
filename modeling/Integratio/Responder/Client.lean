import Integratio.Responder.Process

/-!
# The packets of a client

A `Client` is one end of a TCP connection with the responder: `seg` is a segment it sends, `reply`
a segment of the responder to it.
-/

namespace Integratio

/-- What a client gets for a request: what `httz->getResponse` returns, `""` when `httz` is `NULL`.
-/
def Config.answer (c : Config) (request : Bytes) : Bytes := (c.httz.map (· request)).getD []

theorem Machine.respond_eq (c : Config) (request : Bytes) :
    Machine.respond c request = c.answer request := by
  unfold Machine.respond Config.answer
  cases c.httz with
  | none => rfl
  | some getResponse => rfl

structure Client where
  addr : BitVec 32
  port : BitVec 16
  server : BitVec 32
  serverPort : BitVec 16
  deriving DecidableEq, Repr

namespace Client

def seg (k : Client) (flags : BitVec 12) (seq ackSeq : BitVec 32) (payload : Bytes) : Packet :=
  { ip := { srcAddr := k.addr, dstAddr := k.server }
    tcp :=
      { sport := k.port, dport := k.serverPort, seq := seq, ackSeq := ackSeq, flags := flags
        payload := payload } }

def reply (k : Client) (flags : BitVec 12) (seq ackSeq : BitVec 32) (payload : Bytes) : Packet :=
  { ip := { srcAddr := k.server, dstAddr := k.addr }
    tcp :=
      { sport := k.serverPort, dport := k.port, seq := seq, ackSeq := ackSeq, flags := flags
        payload := payload } }

end Client

/-- A client of the addresses in `IPListener`'s filter. -/
def sampleClient (port : BitVec 16) : Client :=
  { addr := 0xC0A8B225, port := port, server := 0xC0A8B259, serverPort := 80 }

/-- A responder that answers every request with its bytes. -/
def echo : Config := { httz := some id }

/-- A client's SYN and ACK. -/
def handshake : List Packet :=
  [(sampleClient 40000).seg TCP.SYN 1000 0 [], (sampleClient 40000).seg TCP.ACK 1001 31332 []]

def handshakeRun : List Machine.Step :=
  (Transducer.exec ({} : Config).step Machine.start handshake).toOption.getD []

/-- A handshake and a FIN, before the client's last ACK. -/
def untilFin : List Packet :=
  [(sampleClient 40000).seg TCP.SYN 1000 0 [], (sampleClient 40000).seg TCP.ACK 1001 31332 [],
    (sampleClient 40000).seg (TCP.FIN ||| TCP.ACK) 1001 31332 []]

def untilFinRun : List Machine.Step :=
  (Transducer.exec ({} : Config).step Machine.start untilFin).toOption.getD []

end Integratio
