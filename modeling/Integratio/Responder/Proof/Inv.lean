import Integratio.Responder.Proof.Steps

/-!
# The invariant of a responder

A responder is either listening (`Listening`: no stream, and the last received packet is no SYN,
so that the retransmission check cannot swallow the next one) or bound to the SYN `q` it answered
(`Bound m q`: the stream is the source port of `q` and the reply's ports are those of `q`,
swapped). One packet keeps a listening responder listening or binds it (`Listening.step`), and
keeps a bound one bound or resets it (`Bound.step`); along a run the SYN is the last packet that
drew a SYN|ACK (`opener`, `run_phase`). `Addressed` adds the reply's addresses, which the fix-up
for `0.0.0.0` leaves alone unless the SYN was sent to `0.0.0.0` (`Addressed.step`).
-/

namespace Integratio

open Transducer Machine

/-- A responder that listens. -/
structure Listening (m : Machine) : Prop where
  state : m.state = .listen
  stream : m.streamId = -1
  notSyn : m.tcpR.flags ≠ TCP.SYN
  payload : m.tcpS.payload = []

/-- A responder that answered the SYN `q` and has not returned to `LISTEN`. -/
structure Bound (m : Machine) (q : Packet) : Prop where
  state : m.state ≠ .listen
  stream : m.streamId = q.tcp.sport.toNat
  sport : m.tcpS.sport = q.tcp.dport
  dport : m.tcpS.dport = q.tcp.sport
  payload : m.tcpS.payload = []

/-- The reply goes from the destination address of `q` to its source address. -/
def Addressed (m : Machine) (q : Packet) : Prop :=
  m.ipS = { srcAddr := q.ip.dstAddr, dstAddr := q.ip.srcAddr }

variable {c : Config} {m m' : Machine} {p q : Packet} {out : List Effect}

/-! ## One packet -/

theorem Bound.stream_ne (h : Bound m q) : m.streamId ≠ -1 := by
  have := h.stream
  omega

theorem streamAfter_of_ne (h : m.streamId ≠ -1) : m.streamAfter p = m.streamId := by
  simp [streamAfter, h]

/-- A packet of the stream, or any packet without one, raises the local SEQ to its ACK. -/
theorem seqAfter_toNat (h : m.streamId = -1 ∨ m.ofStream p = true) :
    (m.seqAfter p).toNat = max m.tcpS.seq.toNat p.tcp.ackSeq.toNat := by
  unfold seqAfter
  by_cases hgt : p.tcp.ackSeq > m.tcpS.seq
  · rw [if_pos ⟨hgt, h⟩]
    have : m.tcpS.seq.toNat < p.tcp.ackSeq.toNat := hgt
    omega
  · rw [if_neg fun hc => hgt hc.1]
    have : ¬ m.tcpS.seq.toNat < p.tcp.ackSeq.toNat := hgt
    omega

/-- A packet of another stream leaves the local SEQ alone. -/
theorem seqAfter_of_not (h : m.streamId ≠ -1) (hp : m.ofStream p = false) :
    m.seqAfter p = m.tcpS.seq := by
  simp [seqAfter, h, hp]

theorem ackAfter_of (h : m.ofStream p = true) :
    m.ackAfter p = m.tcpS.ackSeq + BitVec.ofNat 32 p.tcp.payload.length := by
  unfold ackAfter
  split
  · rfl
  · rename_i hno
    have hlen : p.tcp.payload.length = 0 := by
      by_contra hne
      exact hno ⟨by omega, h⟩
    rw [hlen]
    exact (BitVec.add_zero _).symm

theorem ackAfter_of_not (h : m.ofStream p = false) : m.ackAfter p = m.tcpS.ackSeq := by
  simp [ackAfter, h]

theorem Bound.ofStream (h : Bound m q) : m.ofStream p = true ↔ p.tcp.sport = q.tcp.sport := by
  simp only [Machine.ofStream, h.stream, decide_eq_true_eq]
  refine ⟨fun he => BitVec.eq_of_toNat_eq (by omega), fun he => by rw [he]⟩

/-- A stream is kept, taken from a SYN, or given up. -/
theorem Moves.stream (hm : Moves c m p m' out) :
    m'.streamId = m.streamId ∨
      (m.streamId = -1 ∧ p.tcp.flags = TCP.SYN ∧ m'.streamId = p.tcp.sport.toNat) ∨
      (m.state = .closeWait ∧ m' = start) := by
  have hor : ∀ m' : Machine, m'.streamId = m.streamAfter p → m'.streamId = m.streamId ∨
      (m.streamId = -1 ∧ p.tcp.flags = TCP.SYN ∧ m'.streamId = p.tcp.sport.toNat) ∨
      (m.state = .closeWait ∧ m' = start) := by
    intro m' he
    rw [he]
    unfold streamAfter
    split
    · rename_i h
      exact .inr (.inl ⟨h.2, h.1, rfl⟩)
    · exact .inl rfl
  cases hm with
  | dropped => exact .inl (fixupAddr_streamId ..)
  | closed _ hst => exact .inr (.inr ⟨hst, rfl⟩)
  | opened => exact hor _ rfl
  | _ => exact hor _ (receive_streamId ..)

theorem start_listening : Listening start := ⟨rfl, rfl, by decide, rfl⟩

/-- A listening responder stays silent and listening, or answers a SYN and is bound to it. -/
theorem Listening.step (h : Listening m) (hm : Moves c m p m' out) :
    (Listening m' ∧ out = []) ∨
      (p.tcp.flags = TCP.SYN ∧ m' = m.opened c p ∧ Bound m' p ∧ Addressed m' p ∧
        out = m.send c ⟨m'.ipS, m'.tcpS⟩ "sendSynAck") := by
  have hne : ∀ s, s ≠ .listen → m.state = s → False := fun s hs he => hs (he ▸ h.state)
  cases hm with
  | dropped => exact .inl ⟨⟨by simp [h.state], by simp [h.stream], by simp [h.notSyn],
      by simp [h.payload]⟩, rfl⟩
  | noted _ hrow =>
    have hsyn : p.tcp.flags ≠ TCP.SYN := by
      intro he
      have := hrow .syn he
      rw [h.state] at this
      cases this
    refine .inl ⟨⟨by simp [h.state], ?_, by simpa using hsyn, by simp [h.payload]⟩, rfl⟩
    simp [streamAfter, hsyn, h.stream]
  | opened _ _ hfl =>
    refine .inr ⟨hfl, rfl, ⟨by simp [Machine.opened], ?_, rfl, rfl, h.payload⟩, rfl, rfl⟩
    simp [Machine.opened, streamAfter, hfl, h.stream]
  | confirmed _ hst => exact (hne _ (by simp) hst).elim
  | answered _ hst => exact (hne _ (by simp) hst).elim
  | finished _ hst => exact (hne _ (by simp) hst).elim
  | closed _ hst => exact (hne _ (by simp) hst).elim

/-- A listening responder answers every SYN. -/
theorem Listening.opens (h : Listening m) (hq : q.tcp.flags = TCP.SYN) :
    Moves c m q (m.opened c q)
      (m.send c ⟨(m.opened c q).ipS, (m.opened c q).tcpS⟩ "sendSynAck") := by
  refine .opened (retransmitted_of_flags ?_) h.state hq
  rw [hq]
  exact h.notSyn

/-- A bound responder stays bound to the same SYN, or is as new. -/
theorem Bound.step (h : Bound m q) (hm : Moves c m p m' out) :
    Bound m' q ∨ (m.state = .closeWait ∧ p.tcp.flags = TCP.ACK ∧ m' = start ∧ out = []) := by
  have hsa : m.streamAfter p = q.tcp.sport.toNat := by
    rw [streamAfter_of_ne h.stream_ne, h.stream]
  cases hm with
  | dropped => exact .inl ⟨by simp [h.state], by simp [h.stream], by simp [h.sport],
      by simp [h.dport], by simp [h.payload]⟩
  | noted => exact .inl ⟨by simp [h.state], by simp [hsa], by simp [h.sport], by simp [h.dport],
      by simp [h.payload]⟩
  | opened _ hst => exact (h.state hst).elim
  | confirmed => exact .inl ⟨by simp, by simp [hsa], by simp [h.sport], by simp [h.dport],
      by simp [h.payload]⟩
  | answered => exact .inl ⟨by simp [h.state], by simp [hsa], h.sport, h.dport, h.payload⟩
  | finished => exact .inl ⟨by simp, by simp [hsa], h.sport, h.dport, h.payload⟩
  | closed _ hst hfl => exact .inr ⟨hst, hfl, rfl, rfl⟩

/-- The fix-up does not touch the addresses of a SYN that was not sent to `0.0.0.0`. -/
theorem Addressed.fixupAddr (h : Addressed m q) (hq : q.ip.dstAddr ≠ 0 ∨ p.ip = q.ip) :
    (m.fixupAddr p).ipS = m.ipS := by
  unfold Machine.fixupAddr
  split
  · rename_i h0
    rcases hq with hq | hq
    · rw [h] at h0
      exact (hq h0).elim
    · rw [h, hq]
  · rfl

theorem Addressed.step (h : Addressed m q) (hb : Bound m q)
    (hq : q.ip.dstAddr ≠ 0 ∨ p.ip = q.ip) (hm : Moves c m p m' out) :
    Addressed m' q ∨ m' = start := by
  have hf := h.fixupAddr hq
  cases hm with
  | dropped => exact .inl (hf.trans h)
  | noted => exact .inl ((receive_ipS ..).trans (hf.trans h))
  | opened _ hst => exact (hb.state hst).elim
  | confirmed => exact .inl ((receive_ipS ..).trans (hf.trans h))
  | answered => exact .inl ((receive_ipS ..).trans (hf.trans h))
  | finished => exact .inl ((receive_ipS ..).trans (hf.trans h))
  | closed => exact .inr rfl

/-! ## Runs -/

/-- The step answered a SYN: it sent a SYN|ACK. -/
def answersSyn (t : Step) : Bool :=
  (sent t.out).any fun p => p.tcp.flags = TCP.SYN ||| TCP.ACK

/-- The SYN of the last SYN|ACK. -/
def opener (T : List Step) : Option Packet :=
  (T.filter answersSyn).getLast?.map (·.inp)

theorem opener_snoc (T : List Step) (t : Step) :
    opener (T ++ [t]) = if answersSyn t then some t.inp else opener T := by
  unfold opener
  rw [List.filter_append]
  cases h : answersSyn t <;> simp [h]

/-- Only an opening step sends a SYN|ACK. -/
theorem Bound.not_answersSyn (h : Bound m q) (hm : Moves c m p m' out) :
    answersSyn ⟨m, p, m', out⟩ = false := by
  have hne : (TCP.ACK ≠ TCP.SYN ||| TCP.ACK) ∧ TCP.FIN ||| TCP.ACK ≠ TCP.SYN ||| TCP.ACK := by
    decide
  cases hm with
  | opened _ hst => exact (h.state hst).elim
  | answered => simp [answersSyn, dataTcp, hne.1]
  | finished => simp [answersSyn, finTcp, hne.2]
  | _ => rfl

theorem Listening.not_answersSyn (h : out = []) : answersSyn ⟨m, p, m', out⟩ = false := by
  rw [h]; rfl

/-- What a run from a new responder leads to: a listening responder, or one bound to the SYN it
last answered. -/
def Phase (T : List Step) (m : Machine) : Prop :=
  Listening m ∨ ∃ q, opener T = some q ∧ q.tcp.flags = TCP.SYN ∧ Bound m q

theorem Phase.step {T : List Step} (h : Phase T m)
    (hm : Moves c m p m' out) : Phase (T ++ [⟨m, p, m', out⟩]) m' := by
  rcases h with h | ⟨q, ho, hq, hb⟩
  · rcases h.step hm with ⟨h', -⟩ | ⟨hfl, rfl, hb, -, rfl⟩
    · exact .inl h'
    · refine .inr ⟨p, ?_, hfl, hb⟩
      rw [opener_snoc, if_pos]
      simp [answersSyn, Machine.opened]
  · rcases hb.step hm with hb' | ⟨-, -, rfl, -⟩
    · refine .inr ⟨q, ?_, hq, hb'⟩
      rw [opener_snoc, hb.not_answersSyn hm]
      exact ho
    · exact .inl start_listening

/-- **The invariant along a run.** -/
theorem run_phase {T : List Step} (h : Run c.step start T m) :
    Phase T m :=
  h.history Phase (fun _ _ _ _ _ _ hp hs => hp.step (step_moves hs)) (.inl start_listening)

theorem Config.Reachable.phase (h : c.Reachable m) : Listening m ∨ ∃ q, Bound m q := by
  obtain ⟨T, hT⟩ := h
  exact (run_phase hT).imp_right fun ⟨q, _, _, hb⟩ => ⟨q, hb⟩

theorem Config.Reachable.listening (h : c.Reachable m) (hs : m.state = .listen) : Listening m := by
  rcases h.phase with h | ⟨q, hb⟩
  · exact h
  · exact (hb.state hs).elim

end Integratio
