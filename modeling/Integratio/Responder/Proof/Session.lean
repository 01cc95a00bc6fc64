import Integratio.Responder.Proof.Repeat
import Integratio.Responder.Proof.Serves

/-!
# A whole session

`session_replies`: from any reachable `LISTEN` state, a client that opens a connection, sends its
requests one after another, acknowledges all data it was sent and closes the connection gets one
SYN|ACK, one data segment for each request and one FIN|ACK, all with the cumulative TCP numbers; and
the responder is as new. Every packet but the last may be repeated at once
(`Moves.reads_replicate`). `Ready m k x s` is the responder between two rounds: it has counted the
client's bytes up to `x`, and the next segment of the client acknowledges `s`.
-/

namespace Integratio

open Transducer Machine

/-- A request, its repetitions, and the copies of the bare ACK after the response. -/
structure Round where
  request : Bytes
  repeats : Nat
  acks : Nat
  deriving DecidableEq, Repr

/-- What a client does in a session; `ackOfSyn` is the ACK field of its SYN. -/
structure Script where
  isn : BitVec 32
  ackOfSyn : BitVec 32
  synRepeats : Nat
  ackRepeats : Nat
  rounds : List Round
  finRepeats : Nat
  deriving DecidableEq, Repr

def requestBytes (rs : List Round) : Nat := (rs.map (·.request.length)).sum

def responseBytes (c : Config) (rs : List Round) : Nat :=
  (rs.map fun r => (c.answer r.request).length).sum

namespace Client

variable (k : Client) (c : Config)

/-- The packets of one round, sent with SEQ `x` and ACK `s`. -/
def round (x s : BitVec 32) (r : Round) : List Packet :=
  List.replicate (r.repeats + 1) (k.seg (TCP.PSH ||| TCP.ACK) x s r.request) ++
    List.replicate r.acks
      (k.seg TCP.ACK (x + BitVec.ofNat 32 r.request.length)
        (s + BitVec.ofNat 32 (c.answer r.request).length) [])

def rounds : BitVec 32 → BitVec 32 → List Round → List Packet
  | _, _, [] => []
  | x, s, r :: rs =>
    k.round c x s r ++
      rounds (x + BitVec.ofNat 32 r.request.length)
        (s + BitVec.ofNat 32 (c.answer r.request).length) rs

/-- The packets of a session in which the SYN|ACK has SEQ `s`. -/
def session (sc : Script) (s : BitVec 32) : List Packet :=
  let x := sc.isn + 1 + BitVec.ofNat 32 (requestBytes sc.rounds)
  let y := s + 1 + BitVec.ofNat 32 (responseBytes c sc.rounds)
  List.replicate (sc.synRepeats + 1) (k.seg TCP.SYN sc.isn sc.ackOfSyn []) ++
    List.replicate (sc.ackRepeats + 1) (k.seg TCP.ACK (sc.isn + 1) (s + 1) []) ++
    k.rounds c (sc.isn + 1) (s + 1) sc.rounds ++
    List.replicate (sc.finRepeats + 1) (k.seg (TCP.FIN ||| TCP.ACK) x y []) ++
    [k.seg TCP.ACK (x + 1) (y + 1) []]

/-- The data segment for each of the rounds: the `i`-th starts after the responses to the rounds
before and acknowledges the requests up to its own. -/
def responses (x s : BitVec 32) (rs : List Round) : List Packet :=
  rs.mapIdx fun i r =>
    k.reply TCP.ACK (s + BitVec.ofNat 32 (responseBytes c (rs.take i)))
      (x + BitVec.ofNat 32 (requestBytes (rs.take (i + 1)))) (c.answer r.request)

/-- The packets the client is sent. -/
def replies (sc : Script) (s : BitVec 32) : List Packet :=
  k.reply (TCP.SYN ||| TCP.ACK) s (sc.isn + 1) [] :: k.responses c (sc.isn + 1) (s + 1) sc.rounds ++
    [k.reply (TCP.FIN ||| TCP.ACK) (s + 1 + BitVec.ofNat 32 (responseBytes c sc.rounds))
      (sc.isn + 2 + BitVec.ofNat 32 (requestBytes sc.rounds)) []]

end Client

variable {c : Config} {m m' : Machine} {out : List Effect} {k : Client} {x s : BitVec 32}
  {d : Bytes} {r : Round} {rs : List Round}

/-! ## The numbers -/

@[simp] theorem requestBytes_nil : requestBytes [] = 0 := rfl
@[simp] theorem requestBytes_cons :
    requestBytes (r :: rs) = r.request.length + requestBytes rs := by
  simp [requestBytes]
@[simp] theorem responseBytes_nil : responseBytes c [] = 0 := rfl
@[simp] theorem responseBytes_cons :
    responseBytes c (r :: rs) = (c.answer r.request).length + responseBytes c rs := by
  simp [responseBytes]

theorem responses_cons :
    k.responses c x s (r :: rs) =
      k.reply TCP.ACK s (x + BitVec.ofNat 32 r.request.length) (c.answer r.request) ::
        k.responses c (x + BitVec.ofNat 32 r.request.length)
          (s + BitVec.ofNat 32 (c.answer r.request).length) rs := by
  simp [Client.responses, List.mapIdx_cons, add_ofNat_add]

/-- Between two rounds (module doc). The last packet was no part of the next round. -/
structure Ready (m : Machine) (k : Client) (x s : BitVec 32) : Prop where
  serves : Serves m k
  state : m.state = .established
  ack : m.tcpS.ackSeq = x
  seq : m.tcpS.seq.toNat ≤ s.toNat
  last : m.tcpR.flags = TCP.ACK ∨ m.tcpR.flags = TCP.PSH ||| TCP.ACK ∧ m.tcpR.seq ≠ x

theorem Ready.fresh_request (h : Ready m k x s) :
    m.retransmitted (k.seg (TCP.PSH ||| TCP.ACK) x s d) = false := by
  rcases h.last with hf | ⟨-, hseq⟩
  · refine retransmitted_of_flags ?_
    rw [hf]
    exact show TCP.ACK ≠ TCP.PSH ||| TCP.ACK by decide
  · exact retransmitted_of_seq hseq

theorem Ready.fresh_fin (h : Ready m k x s) :
    m.retransmitted (k.seg (TCP.FIN ||| TCP.ACK) x s d) = false := by
  refine retransmitted_of_flags ?_
  rcases h.last with hf | ⟨hf, -⟩
  · rw [hf]
    exact show TCP.ACK ≠ TCP.FIN ||| TCP.ACK by decide
  · rw [hf]
    exact show TCP.PSH ||| TCP.ACK ≠ TCP.FIN ||| TCP.ACK by decide

theorem Ready.request (h : Ready m k x s) (hp : d ≠ []) (hlt : d.length < 2 ^ 32)
    (hs : s.toNat + (c.answer d).length < 2 ^ 32) :
    ∃ m' out, Moves c m (k.seg (TCP.PSH ||| TCP.ACK) x s d) m' out ∧
      sent out = [k.reply TCP.ACK s (x + BitVec.ofNat 32 d.length) (c.answer d)] ∧
      Ready m' k (x + BitVec.ofNat 32 d.length) (s + BitVec.ofNat 32 (c.answer d).length) := by
  have hm := Moves.answered (c := c) h.fresh_request h.state rfl hp
  rw [respond_eq] at hm
  have hseq := h.serves.seqAfter (f := TCP.PSH ||| TCP.ACK) (x := x) (d := d) h.seq
  have hack := h.serves.ackAfter (f := TCP.PSH ||| TCP.ACK) (x := x) (s := s) (d := d)
  rw [h.ack] at hack
  have hk : (k.seg (TCP.PSH ||| TCP.ACK) x s d).tcp.payload = d := rfl
  refine ⟨_, _, hm, ?_, ?_, by simp [h.state], hack, ?_, .inr ⟨by simp; rfl, ?_⟩⟩
  · rw [sent_append, sent_ask, sent_send, List.nil_append, h.serves.fixupAddr, dataTcp, hseq, hack,
      hk]
    exact congrArg (· :: []) h.serves.reply
  · exact h.serves.step hm (by simp [h.state])
  · rw [add_ofNat_toNat _ hs]
    simp [dataTcp, hseq]
  · rw [receive_tcpR, TCP.assign_seq]
    exact ne_add_ofNat x (List.length_pos_iff.2 hp) hlt

/-- A bare ACK, from the handshake on. -/
theorem Serves.bareAck (h : Serves m k) (hm : Moves c m (k.seg TCP.ACK x s []) m' out)
    (hm' : m' = { m.receive c (k.seg TCP.ACK x s []) with state := .established })
    (hs : m.tcpS.seq.toNat ≤ s.toNat) (hx : m.tcpS.ackSeq = x) : Ready m' k x s := by
  have hseq := h.seqAfter (f := TCP.ACK) (x := x) (d := []) hs
  have hack := h.ackAfter (f := TCP.ACK) (x := x) (s := s) (d := [])
  rw [hx, List.length_nil, BitVec.add_zero] at hack
  subst hm'
  exact ⟨h.step hm (by simp), rfl, by simp [hack], by simp [hseq], .inl (by simp; rfl)⟩

theorem Ready.bareAck (h : Ready m k x s) :
    ∃ m', Moves c m (k.seg TCP.ACK x s []) m' [] ∧ Ready m' k x s := by
  cases hre : m.retransmitted (k.seg TCP.ACK x s []) with
  | true =>
    have hm := Moves.dropped (c := c) hre
    have hst := h.serves.step hm (by simp [h.state])
    exact ⟨_, hm, hst, by simp [h.state], by simp [h.ack], by simpa using h.seq,
      by simpa using h.last⟩
  | false =>
    have hm : Moves c m (k.seg TCP.ACK x s []) (m.receive c (k.seg TCP.ACK x s [])) [] := by
      refine .noted hre fun e he => ?_
      have he' : e = .ack := Event.flags_inj he.symm
      rw [h.state, he']
      rfl
    exact ⟨_, hm, h.serves.bareAck hm (by simp [receive_eq, h.state]) h.seq h.ack⟩

/-! ## Rounds -/

theorem Ready.round (h : Ready m k x s) (hr : r.request ≠ [] ∧ r.request.length < 2 ^ 32)
    (hs : s.toNat + (c.answer r.request).length < 2 ^ 32) :
    ∃ m' out, Reads c.step m (k.round c x s r) out m' ∧
      sent out = [k.reply TCP.ACK s (x + BitVec.ofNat 32 r.request.length) (c.answer r.request)] ∧
      Ready m' k (x + BitVec.ofNat 32 r.request.length)
        (s + BitVec.ofNat 32 (c.answer r.request).length) := by
  obtain ⟨m₁, out, hm, ho, h₁⟩ := h.request hr.1 hr.2 hs
  have hreq := hm.reads_replicate (by simp [h.state]) r.repeats
  rcases ha : r.acks with _ | n
  · refine ⟨m₁, out, ?_, ho, h₁⟩
    rw [Client.round, ha, List.replicate_zero, List.append_nil]
    exact hreq
  · obtain ⟨m₂, hm₂, h₂⟩ := h₁.bareAck (c := c)
    have hacks := hm₂.reads_replicate (by simp [h₁.state]) n
    refine ⟨m₂, out ++ [], ?_, by rw [List.append_nil, ho], h₂⟩
    rw [Client.round, ha]
    exact hreq.append hacks

theorem Ready.rounds (h : Ready m k x s)
    (hr : ∀ r ∈ rs, r.request ≠ [] ∧ r.request.length < 2 ^ 32)
    (hs : s.toNat + responseBytes c rs < 2 ^ 32) :
    ∃ m' out, Reads c.step m (k.rounds c x s rs) out m' ∧ sent out = k.responses c x s rs ∧
      Ready m' k (x + BitVec.ofNat 32 (requestBytes rs))
        (s + BitVec.ofNat 32 (responseBytes c rs)) := by
  induction rs generalizing m x s with
  | nil => exact ⟨m, [], .nil m, rfl, by simpa using h⟩
  | cons r rs ih =>
    rw [responseBytes_cons] at hs
    have hlt : s.toNat + (c.answer r.request).length < 2 ^ 32 := by omega
    obtain ⟨m₁, o₁, hT₁, ho₁, h₁⟩ := h.round (hr r (by simp)) hlt
    have hs₁ := add_ofNat_toNat _ hlt
    obtain ⟨m₂, o₂, hT₂, ho₂, h₂⟩ := ih h₁ (fun r' hr' => hr r' (by simp [hr'])) (by omega)
    rw [add_ofNat_add, add_ofNat_add] at h₂
    refine ⟨m₂, o₁ ++ o₂, hT₁.append hT₂, ?_, by simpa using h₂⟩
    rw [sent_append, ho₁, ho₂, responses_cons, List.singleton_append]

/-! ## The ends of a session -/

theorem Serves.handshake (h : Serves m k) (hst : m.state = .synRcvd) (hf : m.tcpR.flags = TCP.SYN)
    (hx : m.tcpS.ackSeq = x) (hs : m.tcpS.seq.toNat ≤ s.toNat) :
    ∃ m', Moves c m (k.seg TCP.ACK x s []) m' [] ∧ Ready m' k x s := by
  have hre : m.retransmitted (k.seg TCP.ACK x s []) = false := by
    refine retransmitted_of_flags ?_
    rw [hf]
    exact show TCP.SYN ≠ TCP.ACK by decide
  have hm := Moves.confirmed (c := c) hre hst rfl
  exact ⟨_, hm, h.bareAck hm rfl hs hx⟩

theorem Ready.close (h : Ready m k x s) (x' s' : BitVec 32) (n : Nat) :
    ∃ out, Reads c.step m (List.replicate (n + 1) (k.seg (TCP.FIN ||| TCP.ACK) x s []) ++
        [k.seg TCP.ACK x' s' []]) out start ∧
      sent out = [k.reply (TCP.FIN ||| TCP.ACK) s (x + 1) []] := by
  have hm := Moves.finished (c := c) (h.fresh_fin (d := [])) h.state rfl
  have hfins := hm.reads_replicate (by simp [h.state]) n
  have hre : Machine.retransmitted { m.receive c (k.seg (TCP.FIN ||| TCP.ACK) x s []) with
      state := .closeWait, tcpS := m.finTcp (k.seg (TCP.FIN ||| TCP.ACK) x s []) }
      (k.seg TCP.ACK x' s' []) = false := by
    refine retransmitted_of_flags ?_
    rw [receive_tcpR, TCP.assign_flags]
    exact show TCP.FIN ||| TCP.ACK ≠ TCP.ACK by decide
  have hlast := Moves.closed (c := c) hre rfl rfl
  refine ⟨_, hfins.append (.single hlast.step), ?_⟩
  have hseq := h.serves.seqAfter (f := TCP.FIN ||| TCP.ACK) (x := x) (d := []) h.seq
  have hpay := h.serves.bound.payload
  rw [List.append_nil, sent_send, h.serves.fixupAddr, finTcp, hseq]
  rw [← h.serves.reply, hpay]
  rfl

/-- **A whole session**, from any reachable `LISTEN` state. -/
theorem session_replies (c : Config) {m : Machine} (h : c.Reachable m) (hl : m.state = .listen)
    (k : Client) (sc : Script)
    (hr : ∀ r ∈ sc.rounds, r.request ≠ [] ∧ r.request.length < 2 ^ 32) :
    ∃ s : BitVec 32,
      (∃ m₁ out, c.step m (k.seg TCP.SYN sc.isn sc.ackOfSyn []) = .ok (m₁, out) ∧
        sent out = [k.reply (TCP.SYN ||| TCP.ACK) s (sc.isn + 1) []]) ∧
      (s.toNat + 2 + responseBytes c sc.rounds < 2 ^ 32 →
        ∃ T, Run c.step m T start ∧ inputs T = k.session c sc s ∧
          sent (outputs T) = k.replies c sc s) := by
  obtain ⟨m₁, o₁, s, hm₁, ho₁, hsv, hst, hf, hack, hseq⟩ :=
    (h.listening hl).syn (c := c) k sc.isn sc.ackOfSyn
  refine ⟨s, ⟨m₁, o₁, hm₁.step, ho₁⟩, fun hs => ?_⟩
  have hs₁ : (s + 1).toNat = s.toNat + 1 := add_ofNat_toNat 1 (by omega)
  have hsyn := hm₁.reads_replicate (by simp [hl]) sc.synRepeats
  obtain ⟨m₂, hm₂, h₂⟩ := hsv.handshake (c := c) (s := s + 1) hst hf hack (by rw [hseq]; omega)
  have hacks := hm₂.reads_replicate (by simp [hst]) sc.ackRepeats
  obtain ⟨m₃, o₃, hT₃, ho₃, h₃⟩ := h₂.rounds hr (c := c) (by omega)
  obtain ⟨o₄, hT₄, ho₄⟩ := h₃.close (c := c)
    (sc.isn + 1 + BitVec.ofNat 32 (requestBytes sc.rounds) + 1)
    (s + 1 + BitVec.ofNat 32 (responseBytes c sc.rounds) + 1) sc.finRepeats
  obtain ⟨T, hT, hi, ho⟩ := ((hsyn.append hacks).append hT₃).append hT₄
  refine ⟨T, hT, ?_, ?_⟩
  · rw [hi, Client.session]
    simp only [List.append_assoc]
  · rw [ho]
    have hx : sc.isn + 1 + BitVec.ofNat 32 (requestBytes sc.rounds) + 1 =
        sc.isn + 2 + BitVec.ofNat 32 (requestBytes sc.rounds) := by grind
    simp only [sent_append, ho₁, ho₃, ho₄, hx, List.append_nil, Client.replies]
    rfl

/-- Two requests: the first is sent twice, the second is not acknowledged on its own. -/
def twoRounds : Script :=
  { isn := 0xFFFFFFFF, ackOfSyn := 0, synRepeats := 1, ackRepeats := 0
    rounds := [⟨[71, 49], 1, 2⟩, ⟨[71, 50, 50], 0, 0⟩], finRepeats := 1 }

theorem session_replies_two :
    ∃ T, Run echo.step start T start ∧
      inputs T = (sampleClient 40000).session echo twoRounds 31331 ∧
      sent (outputs T) = (sampleClient 40000).replies echo twoRounds 31331 := by
  obtain ⟨s, ⟨m₁, out, hs, ho⟩, h⟩ :=
    session_replies echo (.refl _) rfl (sampleClient 40000) twoRounds (by decide)
  have hm := start_listening.opens (c := echo)
    (q := (sampleClient 40000).seg TCP.SYN 0xFFFFFFFF 0 []) rfl
  have he := hs.symm.trans hm.step
  cases he
  rw [sent_send] at ho
  have hseq : (31331 : BitVec 32) = s := congrArg (·.tcp.seq) (List.cons.inj ho).1
  subst hseq
  exact h (by decide)

end Integratio
