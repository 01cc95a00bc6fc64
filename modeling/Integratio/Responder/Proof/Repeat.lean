import Integratio.Responder.Proof.Rested

/-!
# An immediate duplicate

`Moves.again`: after a packet that did not close the connection, the same packet changes nothing and
sends nothing. With a payload it is taken for a retransmission; without one it may not be (libtins
can keep the payload of the packet before), but then the state has no row for its flags any more and
every update has already been made (`Settled`). The packet that closes a connection is forgotten
with it, so its duplicate is noted by the new responder (`duplicate_iff`).
-/

namespace Integratio

open Transducer Machine

variable {c : Config} {m m' : Machine} {p q : Packet} {out : List Effect}

theorem TCP.assign_assign (keep : Bool) (old new : TCP) :
    TCP.assign keep (TCP.assign keep old new) new = TCP.assign keep old new := by
  unfold TCP.assign
  split <;> simp

/-- The updates before the event have been made for `p`. -/
structure Settled (c : Config) (m : Machine) (p : Packet) : Prop where
  addr : m.fixupAddr p = m
  seq : m.seqAfter p = m.tcpS.seq
  stream : m.streamAfter p = m.streamId
  ipR : m.ipR = p.ip
  tcpR : ∃ old, m.tcpR = TCP.assign c.keepsInner old p.tcp

theorem fixupAddr_idem {m₁ : Machine} (h : m₁.ipS = (m.fixupAddr p).ipS) : m₁.fixupAddr p = m₁ := by
  unfold fixupAddr at h ⊢
  split
  · rename_i h0
    split at h
    · cases m₁; cases h; rfl
    · rename_i hne
      exact (hne (h ▸ h0)).elim
  · rfl

theorem seqAfter_idem {m₁ : Machine} (h : m₁.tcpS.seq = m.seqAfter p)
    (hs : m₁.streamId = m.streamAfter p) : m₁.seqAfter p = m₁.tcpS.seq := by
  unfold seqAfter at h ⊢
  split
  · rename_i hgt
    split at h
    · exact h.symm
    · rename_i hno
      -- a packet that did not raise the local SEQ is of another stream
      have hne : m.streamId ≠ -1 := fun he => hno ⟨h ▸ hgt.1, .inl he⟩
      have hs' := hs.trans (streamAfter_of_ne hne)
      refine (hno ⟨h ▸ hgt.1, ?_⟩).elim
      simpa [ofStream, hs'] using hgt.2
  · rfl

theorem streamAfter_idem {m₁ : Machine} (h : m₁.streamId = m.streamAfter p) :
    m₁.streamAfter p = m₁.streamId := by
  unfold streamAfter at h ⊢
  split
  · rename_i hc
    split at h
    · exact h.symm
    · rename_i hno
      exact (hno ⟨hc.1, h ▸ hc.2⟩).elim
  · rfl

/-- A machine with the updates of `receive` is settled. -/
theorem Settled.received {m₁ : Machine} (hip : m₁.ipS = (m.fixupAddr p).ipS)
    (hseq : m₁.tcpS.seq = m.seqAfter p) (hst : m₁.streamId = m.streamAfter p)
    (hipR : m₁.ipR = p.ip) (htcp : m₁.tcpR = m.tcpR.assign c.keepsInner p.tcp) : Settled c m₁ p :=
  ⟨fixupAddr_idem hip, seqAfter_idem hseq hst, streamAfter_idem hst, hipR, m.tcpR, htcp⟩

theorem Settled.again (h : Settled c m p)
    (hrow : p.tcp.payload = [] → ∀ e, p.tcp.flags = e.flags → row? m.state e = none) :
    Moves c m p m [] := by
  obtain ⟨old, htcp⟩ := h.tcpR
  cases hre : m.retransmitted p with
  | true =>
    have hm := Moves.dropped (c := c) hre
    rwa [h.addr] at hm
  | false =>
    have hpay : p.tcp.payload = [] := by
      by_contra hne
      simp [retransmitted, htcp, TCP.assign_payload _ _ _ hne] at hre
    have hm := Moves.noted (c := c) hre (hrow hpay)
    rw [receive_eq, h.addr, h.seq, h.stream, ← h.ipR, htcp, TCP.assign_assign, ← htcp] at hm
    have hack : m.ackAfter p = m.tcpS.ackSeq := by simp [ackAfter, hpay]
    rw [hack] at hm
    exact hm

/-- **An immediate duplicate is ignored**, unless the packet closed the connection. -/
theorem Moves.again (hm : Moves c m p m' out) :
    Moves c m' p m' [] ∨ (m.state = .closeWait ∧ p.tcp.flags = TCP.ACK ∧ m' = start) := by
  have hnone : ∀ (s : State) (e : Event), p.tcp.flags = e.flags → row? s e = none →
      ∀ e', p.tcp.flags = e'.flags → row? s e' = none := by
    intro s e he hr e' he'
    rwa [← Event.flags_inj (he.symm.trans he')]
  cases hm with
  | dropped hre =>
    have hm := Moves.dropped (c := c) (p := p) (m := m.fixupAddr p) (by simpa using hre)
    rw [fixupAddr_idem rfl] at hm
    exact .inl hm
  | noted _ hrow =>
    have hset : Settled c (m.receive c p) p := by
      apply Settled.received (m := m) <;> simp
    exact .inl (hset.again fun _ => by simpa using hrow)
  | opened _ _ hfl =>
    have hset : Settled c (m.opened c p) p := by
      refine ⟨?_, seqAfter_idem (m := m) rfl rfl, streamAfter_idem (m := m) rfl, rfl, m.tcpR, rfl⟩
      unfold fixupAddr
      split <;> rfl
    exact .inl (hset.again fun _ => hnone _ .syn hfl rfl)
  | confirmed _ _ hfl =>
    have hset : Settled c { m.receive c p with state := .established } p := by
      apply Settled.received (m := m) <;> simp
    exact .inl (hset.again fun _ => hnone _ .ack hfl rfl)
  | answered _ _ _ hp =>
    have hset : Settled c { m.receive c p with tcpS := m.dataTcp p } p := by
      apply Settled.received (m := m) <;> simp [dataTcp]
    exact .inl (hset.again fun h => (hp h).elim)
  | finished _ _ hfl =>
    have hset : Settled c { m.receive c p with state := .closeWait, tcpS := m.finTcp p } p := by
      apply Settled.received (m := m) <;> simp [finTcp]
    exact .inl (hset.again fun _ => hnone _ .finAck hfl rfl)
  | closed _ hst hfl => exact .inr ⟨hst, hfl, rfl⟩

/-- A packet and any number of immediate duplicates. -/
theorem Moves.reads_replicate (hm : Moves c m p m' out) (hs : m.state ≠ .closeWait) (n : Nat) :
    Reads c.step m (List.replicate (n + 1) p) out m' := by
  rcases hm.again with h | ⟨hst, -⟩
  · exact .replicate hm.step h.step n
  · exact (hs hst).elim

/-- The packet closes the connection. -/
def ClosesOn (m : Machine) (p : Packet) : Prop :=
  m.state = .closeWait ∧ p.tcp.flags = TCP.ACK

/-- A new responder is unchanged by a packet without flags only. -/
theorem Moves.of_start (hm : Moves c start p m' out) (he : m' = start) : p.tcp.flags = 0 := by
  cases hm with
  | dropped hre => exact (retransmitted_iff.1 hre).2.2.1.symm
  | noted =>
    have hfl := congrArg (·.tcpR.flags) he
    simp only [receive_tcpR, TCP.assign_flags] at hfl
    exact hfl
  | opened => exact absurd (congrArg (·.state) he) (by simp [Machine.opened, start, onEntry])
  | confirmed _ hst => cases hst
  | answered _ hst => cases hst
  | finished _ hst => cases hst
  | closed _ hst => cases hst

/-- **Where a duplicate counts as one packet**: everywhere but at the end of a connection. -/
theorem duplicate_iff (h : c.Reachable m) (hs : c.step m p = .ok (m', out)) :
    (∃ o, Reads c.step m [p, p] o m' ∧ sent o = sent out) ↔ ¬ ClosesOn m p := by
  constructor
  · rintro ⟨o, hr, -⟩ ⟨hst, hfl⟩
    have hre := h.rested.fresh (e := .ack) hfl (by rw [hst]; decide) (by decide)
    cases hs.symm.trans (Moves.closed (c := c) hre hst hfl).step
    -- the second copy would be read by a new responder and leave it new
    obtain ⟨m₁, o₁, o₂, hs₁, hr₁, -⟩ := hr.cons_inv
    cases hs.symm.trans hs₁
    obtain ⟨m₂, o₁, o₂, hs₂, hr₂, -⟩ := hr₁.cons_inv
    have hzero := (step_moves hs₂).of_start hr₂.nil_inv.symm
    rw [hfl] at hzero
    exact absurd hzero (by decide)
  · intro hno
    have hst : Moves c m' p m' [] := by
      rcases (step_moves hs).again with hm | ⟨hst, hfl, -⟩
      · exact hm
      · exact (hno ⟨hst, hfl⟩).elim
    exact ⟨out, .replicate hs hst.step 1, rfl⟩

theorem duplicate_iff_syn :
    ∃ o, Reads ({} : Config).step start [handshake[0], handshake[0]] o
        (start.opened {} handshake[0]) ∧
      sent o = [(sampleClient 40000).reply (TCP.SYN ||| TCP.ACK) 31331 1001 []] :=
  (duplicate_iff (.refl _) (start_listening.opens (q := handshake[0]) rfl).step).2
    fun h => absurd h.1 (by decide)

/-- **The last ACK of a connection is not ignored when it comes again**: it is the first packet of
the next one. -/
theorem last_ack_again :
    ¬ ∀ (c : Config) (m m' : Machine) (p : Packet) (out : List Effect), c.Reachable m →
      c.step m p = .ok (m', out) → ∃ o, Reads c.step m [p, p] o m' ∧ sent o = sent out := by
  intro h
  have he : exec ({} : Config).step start untilFin = .ok untilFinRun := rfl
  obtain ⟨o, hr, -⟩ := h {} (final start untilFinRun) start
    ((sampleClient 40000).seg TCP.ACK 1002 31333 []) [] ⟨_, (Run.of_exec he).1⟩ rfl
  obtain ⟨m₁, o₁, o₂, hs₁, hr₁, -⟩ := hr.cons_inv
  cases hs₁
  obtain ⟨m₂, o₁, o₂, hs₂, hr₂, -⟩ := hr₁.cons_inv
  cases hs₂
  exact absurd hr₂.nil_inv (by decide)

end Integratio
