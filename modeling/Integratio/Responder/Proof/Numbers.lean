import Integratio.Lib.Serial
import Integratio.Responder.Proof.Rested
import Integratio.Responder.Proof.Ranges

/-!
# The numbers of a reply

* `numbering`: from the SYN|ACK until the FIN|ACK the local ACK is one more than the SYN's sequence
  number plus the payloads heard, and the local SEQ is the largest of the SYN|ACK's and the ACKs
  heard. Packets of other ports, although they overwrite the last received packet, count for
  neither.
* `seq_follows_iff`: the local SEQ is compared as a plain number, so it follows the client's ACKs in
  32-bit sequence arithmetic exactly while they are less than half the range away.
* `finAck_counts_iff`: the FIN|ACK is numbered from the FIN's sequence number alone, so it
  acknowledges the FIN's payload exactly when there is none.
-/

namespace Integratio

open Transducer Machine

variable {c : Config} {m m' : Machine} {p q : Packet} {out : List Effect} {s : BitVec 32}
  {T T₁ T₂ : List Step} {t : Step}

/-! ## What is heard -/

instance : DecidablePred (Heard q) := fun t =>
  inferInstanceAs (Decidable (t.src.retransmitted t.inp = false ∧ t.inp.tcp.sport = q.tcp.sport))

/-- The packets of the stream of `q` that were not dropped as retransmissions. -/
def heard (q : Packet) (T : List Step) : List Packet := (T.filter (Heard q ·)).map (·.inp)

/-- The step sent a FIN|ACK. -/
def answersFin (t : Step) : Bool :=
  (sent t.out).any fun p => p.tcp.flags = TCP.FIN ||| TCP.ACK

/-- The numbers after `T`, when the SYN `q` was answered with the sequence number `s`. -/
structure Numbered (q : Packet) (s : BitVec 32) (T : List Step) (m : Machine) : Prop where
  ack : m.tcpS.ackSeq =
    q.tcp.seq + 1 + BitVec.ofNat 32 ((heard q T).map (·.tcp.payload.length)).sum
  seq : m.tcpS.seq.toNat = ((heard q T).map (·.tcp.ackSeq.toNat)).foldl max s.toNat

theorem heard_snoc (q : Packet) (T : List Step) (t : Step) :
    heard q (T ++ [t]) = if Heard q t then heard q T ++ [t.inp] else heard q T := by
  unfold heard
  rw [List.filter_append]
  by_cases h : Heard q t
  · simp [h]
  · simp [h]

/-! ## One packet -/

/-- The numbers after a packet of a connection that is not about to close. -/
structure Counts (m : Machine) (p : Packet) (m' : Machine) : Prop where
  waiting : m'.state ≠ .closeWait
  seq : m'.tcpS.seq = if m.retransmitted p then m.tcpS.seq else m.seqAfter p
  ack : m'.tcpS.ackSeq = if m.retransmitted p then m.tcpS.ackSeq else m.ackAfter p

theorem Bound.counts (hb : Bound m q) (hs : m.state ≠ .closeWait) (hm : Moves c m p m' out)
    (hfin : answersFin ⟨m, p, m', out⟩ = false) : Counts m p m' := by
  cases hm with
  | dropped hre => exact ⟨by simpa using hs, by simp [hre], by simp [hre]⟩
  | noted hre => exact ⟨by simpa using hs, by simp [hre], by simp [hre]⟩
  | opened _ hst => exact (hb.state hst).elim
  | confirmed hre => exact ⟨State.noConfusion, by simp [hre], by simp [hre]⟩
  | answered hre => exact ⟨by simpa using hs, by simp [hre, dataTcp], by simp [hre, dataTcp]⟩
  | finished => simp [answersFin, finTcp] at hfin
  | closed _ hst => exact (hs hst).elim

/-- A packet of another port counts for nothing. -/
theorem Counts.foreign (h : Counts m p m') (hb : Bound m q) (hp : p.tcp.sport ≠ q.tcp.sport) :
    m'.tcpS.seq = m.tcpS.seq ∧ m'.tcpS.ackSeq = m.tcpS.ackSeq := by
  have hof : m.ofStream p = false := by
    rw [Bool.eq_false_iff]
    exact fun he => hp (hb.ofStream.1 he)
  rw [h.seq, h.ack, seqAfter_of_not hb.stream_ne hof, ackAfter_of_not hof]
  exact ⟨ite_self _, ite_self _⟩

/-- **One packet**: what is heard adds its payload and its ACK, anything else adds nothing. -/
theorem Numbered.step (h : Numbered q s T m) (hb : Bound m q) (hc : Counts m p m') :
    Numbered q s (T ++ [⟨m, p, m', out⟩]) m' := by
  by_cases hh : Heard q ⟨m, p, m', out⟩
  · have hre : m.retransmitted p = false := hh.1
    have hof : m.ofStream p = true := hb.ofStream.2 hh.2
    constructor
    · rw [hc.ack, hre, if_neg Bool.false_ne_true, ackAfter_of hof, h.ack, heard_snoc, if_pos hh,
        List.map_append, List.sum_append, BitVec.ofNat_add, BitVec.add_assoc (q.tcp.seq + 1)]
      simp
    · rw [hc.seq, hre, if_neg Bool.false_ne_true, seqAfter_toNat (.inr hof), h.seq, heard_snoc,
        if_pos hh, List.map_append, List.foldl_append]
      rfl
  · have hsame : m'.tcpS.seq = m.tcpS.seq ∧ m'.tcpS.ackSeq = m.tcpS.ackSeq := by
      cases hre : m.retransmitted p with
      | true => exact ⟨by rw [hc.seq, if_pos hre], by rw [hc.ack, if_pos hre]⟩
      | false => exact hc.foreign hb fun hp => hh ⟨hre, hp⟩
    constructor
    · rw [heard_snoc, if_neg hh, hsame.2]
      exact h.ack
    · rw [heard_snoc, if_neg hh, hsame.1]
      exact h.seq

/-! ## A connection before its FIN -/

theorem run_numbered (hb : Bound m q) (hs : m.state ≠ .closeWait)
    (hack : m.tcpS.ackSeq = q.tcp.seq + 1) (h : Run c.step m T m')
    (hfin : ∀ t ∈ T, answersFin t = false) :
    Bound m' q ∧ m'.state ≠ .closeWait ∧ Numbered q m.tcpS.seq T m' := by
  induction h with
  | nil => exact ⟨hb, hs, by simp [heard, hack], rfl⟩
  | @snoc T m₁ m₂ p out _ hst ih =>
    obtain ⟨hb₁, hs₁, hn⟩ := ih fun t ht => hfin t (List.mem_append_left _ ht)
    have hm := step_moves hst
    have hc := hb₁.counts hs₁ hm (hfin _ (List.mem_append_right _ (List.mem_singleton_self _)))
    rcases hb₁.step hm with hb₂ | ⟨hcl, -⟩
    · exact ⟨hb₂, hc.waiting, hn.step hb₁ hc⟩
    · exact (hs₁ hcl).elim

/-- The step that sends a SYN|ACK answers its packet, a SYN. -/
theorem Config.Reachable.answered_syn (h : c.Reachable m) (hm : Moves c m q m' out)
    (ho : answersSyn ⟨m, q, m', out⟩ = true) : m' = m.opened c q ∧ Bound m' q ∧
      out = m.send c ⟨m'.ipS, m'.tcpS⟩ "sendSynAck" := by
  rcases h.phase with hl | ⟨q', hb⟩
  · rcases hl.step hm with ⟨-, rfl⟩ | ⟨-, he, hb, -, ho⟩
    · cases ho
    · exact ⟨he, hb, ho⟩
  · rw [hb.not_answersSyn hm] at ho
    cases ho

/-- **The numbers of a connection are those of its own packets.** -/
theorem numbering {b : Packet} (h : Run c.step start (T₁ ++ t :: T₂) m) (hbs : b ∈ sent t.out)
    (hfl : b.tcp.flags = TCP.SYN ||| TCP.ACK) (hfin : ∀ t' ∈ T₂, answersFin t' = false) :
    m.tcpS.ackSeq = t.inp.tcp.seq + 1 +
        BitVec.ofNat 32 ((heard t.inp T₂).map (·.tcp.payload.length)).sum ∧
      m.tcpS.seq.toNat = ((heard t.inp T₂).map (·.tcp.ackSeq.toNat)).foldl max b.tcp.seq.toNat ∧
      ∀ t' ∈ T₂, t'.inp.tcp.sport ≠ t.inp.tcp.sport →
        t'.dst.tcpS.seq = t'.src.tcpS.seq ∧ t'.dst.tcpS.ackSeq = t'.src.tcpS.ackSeq := by
  obtain ⟨h₁, hst, h₂⟩ := h.split_cons
  have hans : answersSyn ⟨t.src, t.inp, t.dst, t.out⟩ = true :=
    List.any_eq_true.2 ⟨b, hbs, decide_eq_true hfl⟩
  obtain ⟨hd, hb, ho⟩ := Config.Reachable.answered_syn ⟨T₁, h₁⟩ (step_moves hst) hans
  have hs : t.dst.state ≠ .closeWait := by
    rw [hd]
    exact State.noConfusion
  have hack : t.dst.tcpS.ackSeq = t.inp.tcp.seq + 1 := by
    rw [hd]
    rfl
  have hb0 : b.tcp.seq = t.dst.tcpS.seq := by
    rw [ho, sent_send, List.mem_singleton] at hbs
    rw [hbs]
  refine ⟨?_, ?_, fun t' ht' hp => ?_⟩
  · exact (run_numbered hb hs hack h₂ hfin).2.2.ack
  · rw [hb0]
    exact (run_numbered hb hs hack h₂ hfin).2.2.seq
  · obtain ⟨A, B, rfl, hA, hst', -⟩ := h₂.mem ht'
    obtain ⟨hb', hs', -⟩ := run_numbered hb hs hack hA fun t ht => hfin t (by simp [ht])
    exact (hb'.counts hs' (step_moves hst') (hfin t' ht')).foreign hb' hp

/-- A request that is sent twice, with a request of another port before it. -/
def foreignBetween : List Packet :=
  handshake ++ [(sampleClient 40001).seg (TCP.PSH ||| TCP.ACK) 5000 99999 [71, 69, 84],
    (sampleClient 40000).seg (TCP.PSH ||| TCP.ACK) 1001 31332 [71],
    (sampleClient 40000).seg (TCP.PSH ||| TCP.ACK) 1001 31332 [71]]

def foreignBetweenRun : List Step := (exec echo.step start foreignBetween).toOption.getD []

theorem foreignBetween_run :
    Run echo.step start ([] ++ foreignBetweenRun[0] :: foreignBetweenRun.tail)
      (final start foreignBetweenRun) := by
  have he : exec echo.step start foreignBetween = .ok foreignBetweenRun := rfl
  exact (Run.of_exec he).1

theorem numbering_foreignBetween :
    ∃ b ∈ sent foreignBetweenRun[0].out, b.tcp.flags = TCP.SYN ||| TCP.ACK ∧
      (final start foreignBetweenRun).tcpS.ackSeq =
        foreignBetweenRun[0].inp.tcp.seq + 1 +
          BitVec.ofNat 32 ((heard foreignBetweenRun[0].inp foreignBetweenRun.tail).map
            (·.tcp.payload.length)).sum := by
  have hb : ⟨foreignBetweenRun[0].dst.ipS, foreignBetweenRun[0].dst.tcpS⟩ ∈
      sent foreignBetweenRun[0].out := List.mem_singleton.2 rfl
  exact ⟨_, hb, rfl, (numbering foreignBetween_run hb rfl (by decide)).1⟩

/-! ## Around the circle -/

/-- The local SEQ follows the packet's ACK in 32-bit sequence arithmetic: it becomes the ACK when
that is ahead by less than half the range, and stays otherwise. -/
def FollowsAck (m : Machine) (p : Packet) (m' : Machine) : Prop :=
  m'.tcpS.seq = Serial.advance (n := 31) m.tcpS.seq p.tcp.ackSeq

/-- **The local SEQ follows the ACKs of the stream exactly while they are near.** -/
theorem seq_follows_iff (hp : m.ofStream p = true) (hre : m.retransmitted p = false)
    (hst : c.step m p = .ok (m', out)) (hl : m'.state ≠ .listen) :
    FollowsAck m p m' ↔ Serial.Near (n := 31) m.tcpS.seq p.tcp.ackSeq := by
  rw [← Serial.raise_eq_advance, FollowsAck, (step_moves hst).seq_eq hre hl]
  unfold seqAfter
  simp only [hp, or_true, and_true]

/-- A SYN whose ACK field, without a meaning in a SYN, is the largest number. -/
def highSyn : Packet := (sampleClient 40000).seg TCP.SYN 1000 0xFFFFFFFF []

/-- The ACK of the SYN|ACK to `highSyn`. -/
def wrappedAck : Packet := (sampleClient 40000).seg TCP.ACK 1001 0 []

theorem highSyn_reachable : echo.Reachable (start.opened echo highSyn) :=
  ⟨_, .single (start_listening.opens rfl).step⟩

/-- The ACK of the SYN|ACK to `helloSyn`. -/
def helloAck : Packet := (sampleClient 40000).seg TCP.ACK 1001 31332 []

theorem seq_follows_iff_handshake :
    FollowsAck (start.opened echo helloSyn) helloAck
        { (start.opened echo helloSyn).receive echo helloAck with state := .established } ↔
      Serial.Near (n := 31) (start.opened echo helloSyn).tcpS.seq helloAck.tcp.ackSeq := by
  have hst : echo.step (start.opened echo helloSyn) helloAck =
      .ok ({ (start.opened echo helloSyn).receive echo helloAck with state := .established }, []) :=
    rfl
  exact seq_follows_iff rfl rfl hst State.noConfusion

/-- **The local SEQ does not follow an ACK past the end of the range.** -/
theorem wrapped_ack_ignored :
    ¬ ∀ (c : Config) (m m' : Machine) (p : Packet) (out : List Effect), c.Reachable m →
      m.streamId ≠ -1 → m.ofStream p = true → m.retransmitted p = false →
      c.step m p = .ok (m', out) → m'.state ≠ .listen → FollowsAck m p m' := by
  intro h
  have hf := h echo _ _ wrappedAck [] highSyn_reachable (by decide) rfl rfl rfl State.noConfusion
  exact absurd hf (by unfold FollowsAck; decide)

/-! ## At the close -/

/-- The FIN|ACK acknowledges the FIN and its payload: one more than what the accounting of the
payloads gives after the packet. -/
def AcksFin (c : Config) (m : Machine) (p : Packet) : Prop :=
  ∃ m' out b, c.step m p = .ok (m', out) ∧ sent out = [b] ∧ b.tcp.flags = TCP.FIN ||| TCP.ACK ∧
    b.tcp.ackSeq = p.tcp.seq + BitVec.ofNat 32 p.tcp.payload.length + 1 ∧
    b.tcp.ackSeq = (m.receive c p).tcpS.ackSeq + 1

theorem ofNat_eq_zero_iff (n : Nat) : BitVec.ofNat 32 n = 0 ↔ 2 ^ 32 ∣ n := by
  rw [← BitVec.toNat_inj, BitVec.toNat_ofNat, Nat.dvd_iff_mod_eq_zero]
  exact Iff.rfl

/-- **A FIN with data is not acknowledged to its end**: the FIN|ACK counts the payload of the FIN
exactly when its length does not show in 32 bits, as that of a FIN without a payload. -/
theorem finAck_counts_iff (hs : m.state = .established) (hp : m.ofStream p = true)
    (hfl : p.tcp.flags = TCP.FIN ||| TCP.ACK) (hre : m.retransmitted p = false)
    (hseq : p.tcp.seq = m.tcpS.ackSeq) :
    AcksFin c m p ↔ 2 ^ 32 ∣ p.tcp.payload.length := by
  have hst := (Moves.finished (c := c) hre hs hfl).step
  have hack : (m.receive c p).tcpS.ackSeq =
      p.tcp.seq + BitVec.ofNat 32 p.tcp.payload.length := by
    rw [receive_tcpS, hseq]
    exact ackAfter_of hp
  have hfin : (m.finTcp p).ackSeq = p.tcp.seq + 1 := rfl
  rw [← ofNat_eq_zero_iff]
  have hstep : AcksFin c m p ↔
      p.tcp.seq + 1 = p.tcp.seq + BitVec.ofNat 32 p.tcp.payload.length + 1 := by
    constructor
    · intro ⟨_, _, b, hst', ho, _, hb, _⟩
      rw [hst] at hst'
      cases hst'
      rw [sent_send] at ho
      obtain rfl := List.singleton_inj.1 ho
      rwa [hfin] at hb
    · intro he
      exact ⟨_, _, _, hst, sent_send .., rfl, hfin.trans he, by rw [hack, ← he]; exact hfin⟩
  rw [hstep, BitVec.add_left_inj]
  exact BitVec.self_eq_add_right

/-- A FIN, and a FIN that carries the last byte of a request. -/
def plainFin : Packet := (sampleClient 40000).seg (TCP.FIN ||| TCP.ACK) 1001 31332 []

def finWithData : Packet := (sampleClient 40000).seg (TCP.FIN ||| TCP.ACK) 1001 31332 [71]

theorem finAck_counts_iff_plain :
    AcksFin {} (final start handshakeRun) plainFin ↔ 2 ^ 32 ∣ plainFin.tcp.payload.length :=
  finAck_counts_iff rfl rfl rfl rfl rfl

/-- **The payload of a FIN is not acknowledged.** -/
theorem fin_payload_unacknowledged :
    ¬ ∀ (c : Config) (m : Machine) (p : Packet), c.Reachable m → m.state = .established →
      m.ofStream p = true → p.tcp.flags = TCP.FIN ||| TCP.ACK → m.retransmitted p = false →
      p.tcp.seq = m.tcpS.ackSeq → AcksFin c m p := by
  intro h
  obtain ⟨m', out, b, hst, ho, -, hb, -⟩ :=
    h {} _ finWithData ⟨_, handshake_run⟩ rfl rfl rfl rfl rfl
  cases hst
  obtain rfl := List.singleton_inj.1 ho
  exact absurd hb (by decide)

end Integratio
