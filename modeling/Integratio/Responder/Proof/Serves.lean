import Integratio.Responder.Client
import Integratio.Responder.Proof.Inv

/-!
# The connection of a client

`Serves m k`: the responder is bound to a connection of the client `k`. A SYN of `k` makes any
listening responder serve it (`Listening.syn`), a segment of `k` keeps it so (`Serves.step`), and
what the responder computes from such a segment, its SEQ, ACK and addresses, no longer depends on
the rest of its state.
-/

namespace Integratio

open Transducer Machine

variable {c : Config} {m m' : Machine} {p : Packet} {out : List Effect} {k : Client}
  {x s : BitVec 32} {f : BitVec 12} {d : Bytes}

/-! ## Numbers -/

theorem add_ofNat_add (x : BitVec 32) (a b : Nat) :
    x + BitVec.ofNat 32 a + BitVec.ofNat 32 b = x + BitVec.ofNat 32 (a + b) := by
  rw [BitVec.add_assoc, ← BitVec.ofNat_add]

theorem add_ofNat_toNat (n : Nat) (h : s.toNat + n < 2 ^ 32) :
    (s + BitVec.ofNat 32 n).toNat = s.toNat + n := by
  rw [BitVec.toNat_add, BitVec.toNat_ofNat]
  omega

theorem ne_add_ofNat (x : BitVec 32) {n : Nat} (h0 : 0 < n) (hn : n < 2 ^ 32) :
    x ≠ x + BitVec.ofNat 32 n := by
  intro he
  have := congrArg BitVec.toNat he
  rw [BitVec.toNat_add, BitVec.toNat_ofNat] at this
  omega

/-! ## The connection -/

/-- The responder is bound to a connection of `k`. -/
structure Serves (m : Machine) (k : Client) : Prop where
  bound : Bound m (k.seg TCP.SYN 0 0 [])
  addr : Addressed m (k.seg TCP.SYN 0 0 [])

theorem Serves.step (h : Serves m k) (hm : Moves c m (k.seg f x s d) m' out)
    (hl : m'.state ≠ .listen) : Serves m' k := by
  constructor
  · rcases h.bound.step hm with hb | ⟨-, -, rfl, -⟩
    · exact hb
    · exact (hl rfl).elim
  · rcases Addressed.step (p := k.seg f x s d) h.addr h.bound (.inr rfl) hm with ha | rfl
    · exact ha
    · exact (hl rfl).elim

theorem Serves.ofStream (h : Serves m k) : m.ofStream (k.seg f x s d) = true :=
  h.bound.ofStream.2 rfl

theorem Serves.seqAfter (h : Serves m k) (hs : m.tcpS.seq.toNat ≤ s.toNat) :
    m.seqAfter (k.seg f x s d) = s := by
  have hv := seqAfter_toNat (m := m) (p := k.seg f x s d) (.inr h.ofStream)
  have hk : (k.seg f x s d).tcp.ackSeq = s := rfl
  rw [hk] at hv
  exact BitVec.eq_of_toNat_eq (by omega)

theorem Serves.ackAfter (h : Serves m k) :
    m.ackAfter (k.seg f x s d) = m.tcpS.ackSeq + BitVec.ofNat 32 d.length :=
  ackAfter_of h.ofStream

theorem Serves.fixupAddr (h : Serves m k) :
    (m.fixupAddr (k.seg f x s d)).ipS = { srcAddr := k.server, dstAddr := k.addr } :=
  (Addressed.fixupAddr h.addr (.inr rfl)).trans h.addr

theorem Serves.reply (h : Serves m k) :
    (⟨{ srcAddr := k.server, dstAddr := k.addr },
      { m.tcpS with seq := s, ackSeq := x, flags := f, payload := d }⟩ : Packet) =
      k.reply f s x d := by
  have hs : m.tcpS.sport = k.serverPort := h.bound.sport
  have hd : m.tcpS.dport = k.port := h.bound.dport
  dsimp only [Client.reply]
  rw [hs, hd]

theorem Listening.syn (h : Listening m) (k : Client) (x a : BitVec 32) :
    ∃ m₁ out s, Moves c m (k.seg TCP.SYN x a []) m₁ out ∧
      sent out = [k.reply (TCP.SYN ||| TCP.ACK) s (x + 1) []] ∧ Serves m₁ k ∧
      m₁.state = .synRcvd ∧ m₁.tcpR.flags = TCP.SYN ∧ m₁.tcpS.ackSeq = x + 1 ∧ m₁.tcpS.seq = s := by
  have hm := h.opens (c := c) (q := k.seg TCP.SYN x a []) rfl
  rcases h.step hm with ⟨hL, -⟩ | ⟨-, -, hb, ha, -⟩
  · exact absurd hL.state (by simp [Machine.opened])
  · refine ⟨_, _, _, hm, ?_, ⟨⟨hb.1, hb.2, hb.3, hb.4, hb.5⟩, ha⟩, rfl, ?_, rfl, rfl⟩
    · rw [sent_send]
      simp only [Machine.opened, h.payload]
      rfl
    · simp [Machine.opened]
      rfl

end Integratio
