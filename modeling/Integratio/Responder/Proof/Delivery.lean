import Integratio.Responder.Client
import Integratio.Responder.Proof.Inv

/-!
# Which payloads reach the applicator

The byte accounting (`updateAck`) looks at the port and the payload of a segment only; the payload
is handed to `httz->getResponse` by `sendData`, for one combination of flags in one state.
`delivered_iff` compares the two: a segment that is counted (`Counted`) is delivered exactly when
it is a PSH|ACK that arrives in `ESTABLISHED`. `acked_undelivered` is a session in which a request
without PSH is acknowledged and lost.
-/

namespace Integratio

open Transducer Machine

variable {c : Config} {m m' : Machine} {p : Packet} {out : List Effect}

/-- A packet of the bound stream, not taken for a retransmission, whose payload advances
`tcp_s.ack_seq`. -/
def Counted (m : Machine) (p : Packet) : Prop :=
  m.retransmitted p = false ∧ m.ofStream p = true ∧
    (m.updateAck p).tcpS.ackSeq ≠ m.tcpS.ackSeq

instance (m : Machine) (p : Packet) : Decidable (Counted m p) :=
  inferInstanceAs (Decidable (_ ∧ _ ∧ _))

theorem Counted.payload_ne (h : Counted m p) : p.tcp.payload ≠ [] := by
  intro hp
  apply h.2.2
  rw [updateAck_eq]
  simp [ackAfter, hp]

/-- The applicator is asked by `sendData` only. -/
theorem Moves.requests_eq (h : Moves c m p m' out) :
    requests out = [p.tcp.payload] ∧ c.httz.isSome ∧ m.state = .established ∧
        p.tcp.flags = TCP.PSH ||| TCP.ACK ∧ m.retransmitted p = false ∨
      requests out = [] ∧ ¬ (c.httz.isSome ∧ m.state = .established ∧
        p.tcp.flags = TCP.PSH ||| TCP.ACK ∧ m.retransmitted p = false) := by
  have hpsh : TCP.SYN ≠ TCP.PSH ||| TCP.ACK ∧ TCP.ACK ≠ TCP.PSH ||| TCP.ACK ∧
    TCP.FIN ||| TCP.ACK ≠ TCP.PSH ||| TCP.ACK := by decide
  cases h with
  | dropped hre => exact .inr ⟨rfl, by simp [hre]⟩
  | noted _ hrow =>
    refine .inr ⟨rfl, fun ⟨_, hst, hfl, _⟩ => ?_⟩
    have := hrow .pshAck hfl
    rw [hst] at this
    cases this
  | opened _ _ hfl => exact .inr ⟨requests_send .., by simp [hfl, hpsh.1]⟩
  | confirmed _ _ hfl => exact .inr ⟨rfl, by simp [hfl, hpsh.2.1]⟩
  | answered hre hst hfl hp =>
    cases hh : c.httz with
    | none => exact .inr ⟨by rw [requests_append, requests_ask, requests_send]; rfl, by simp⟩
    | some f =>
      refine .inl ⟨?_, rfl, hst, hfl, hre⟩
      rw [requests_append, requests_ask, requests_send]
      rfl
  | finished _ _ hfl => exact .inr ⟨requests_send .., by simp [hfl, hpsh.2.2]⟩
  | closed _ _ hfl => exact .inr ⟨rfl, by simp [hfl, hpsh.2.1]⟩

/-- **A counted payload is delivered exactly when it comes in a PSH|ACK in `ESTABLISHED`**, at
every step of every run. -/
theorem delivered_iff (c : Config) (hc : c.httz.isSome) {T : List Step} (h : Run c.step start T m) :
    ∀ t ∈ T, Counted t.src t.inp →
      (requests t.out = [t.inp.tcp.payload] ↔
        t.src.state = .established ∧ t.inp.tcp.flags = TCP.PSH ||| TCP.ACK) := by
  intro t ht hcnt
  rcases (step_moves (h.step_mem ht)).requests_eq with ⟨hr, -, hst, hfl, -⟩ | ⟨hr, hno⟩
  · exact iff_of_true hr ⟨hst, hfl⟩
  · refine iff_of_false (by simp [hr]) fun ⟨hst, hfl⟩ => hno ⟨hc, hst, hfl, hcnt.1⟩

/-- A handshake and a request in a segment without PSH. -/
def plainRequest : List Packet :=
  [(sampleClient 40000).seg TCP.SYN 1000 0 [], (sampleClient 40000).seg TCP.ACK 1001 31332 [],
    (sampleClient 40000).seg TCP.ACK 1001 31332 [71, 69, 84]]

def plainRequestRun : List Step :=
  (exec echo.step start plainRequest).toOption.getD []

theorem plainRequest_exec : exec echo.step start plainRequest = .ok plainRequestRun := rfl

theorem delivered_iff_plain :
    requests plainRequestRun[2].out = [[71, 69, 84]] ↔
      plainRequestRun[2].src.state = .established ∧ TCP.ACK = TCP.PSH ||| TCP.ACK :=
  delivered_iff echo rfl (Run.of_exec plainRequest_exec).1 plainRequestRun[2] (by decide)
    (by decide)

/-- **A payload can be acknowledged and never delivered.** -/
theorem acked_undelivered :
    ¬ ∀ (c : Config) (T : List Step) (m : Machine), c.httz.isSome →
      Run c.step start T m → ∀ t ∈ T, Counted t.src t.inp →
        requests t.out = [t.inp.tcp.payload] := by
  intro h
  have := h echo plainRequestRun _ rfl (Run.of_exec plainRequest_exec).1
  exact absurd this (by decide)

end Integratio
