import Integratio.Responder.Proof.Repeat

/-!
# A lost handshake ACK

From `SYN_RCVD` the table has one row, for the bare ACK. A PSH|ACK or a FIN|ACK of the stream
acknowledges the SYN|ACK too, but raises an event without a row: its payload is counted, it is
recorded as the last received packet, and nothing is sent.

* `waits_for_ack`: without a bare ACK a responder in `SYN_RCVD` stays there and sends nothing,
  however often the client repeats its segment.
* `repairs_iff`: the next segment does what the lost ACK and the segment would have done exactly
  when it is a bare ACK itself.
-/

namespace Integratio

open Transducer Machine

/-- The bare ACK with a segment's numbers. -/
def Packet.bareAck (p : Packet) : Packet :=
  { p with tcp := { p.tcp with flags := TCP.ACK, payload := [] } }

/-- A bare ACK, a PSH|ACK with a payload, or a FIN|ACK. -/
def Packet.AfterAck (p : Packet) : Prop :=
  (p.tcp.flags = TCP.ACK ∧ p.tcp.payload = []) ∨
    (p.tcp.flags = TCP.PSH ||| TCP.ACK ∧ p.tcp.payload ≠ []) ∨
    p.tcp.flags = TCP.FIN ||| TCP.ACK

/-- `p` alone sends what the bare ACK and `p` send, and leads to the same responder. -/
def Repairs (c : Config) (m : Machine) (p : Packet) : Prop :=
  ∃ m' o₁ o₂, c.step m p = .ok (m', o₁) ∧ Reads c.step m [p.bareAck, p] o₂ m' ∧ sent o₁ = sent o₂

variable {c : Config} {m m' : Machine} {p : Packet} {out : List Effect} {T : List Step}

/-! ## Waiting -/

/-- In `SYN_RCVD` everything but an ACK is dropped or noted. -/
theorem synRcvd_step (hs : m.state = .synRcvd) (hp : p.tcp.flags ≠ TCP.ACK)
    (hm : Moves c m p m' out) : m'.state = .synRcvd ∧ out = [] := by
  rcases hm.row with ⟨he, ho⟩ | ⟨r, hr, hst, hfl, -⟩
  · exact ⟨he.trans hs, ho⟩
  · have htab : ∀ r ∈ transitionTable, r.start = .synRcvd → r.event = .ack := by decide
    rw [htab r hr (hst.trans hs)] at hfl
    exact absurd hfl hp

/-- **Only a bare ACK leads out of `SYN_RCVD`.** -/
theorem waits_for_ack (hs : m.state = .synRcvd) (h : Run c.step m T m')
    (hT : ∀ t ∈ T, t.inp.tcp.flags ≠ TCP.ACK) : m'.state = .synRcvd ∧ outputs T = [] := by
  induction h with
  | nil => exact ⟨hs, rfl⟩
  | @snoc T m₁ m₂ p out _ hst ih =>
    obtain ⟨hs₁, ho⟩ := ih fun t ht => hT t (List.mem_append_left _ ht)
    obtain ⟨hs₂, rfl⟩ := synRcvd_step hs₁ (hT ⟨m₁, p, m₂, out⟩ (by simp)) (step_moves hst)
    exact ⟨hs₂, by simp [ho]⟩

theorem established_step (hs : m.state = .established) (hm : Moves c m p m' out) :
    m'.state ≠ .synRcvd := by
  rcases hm.row with ⟨he, -⟩ | ⟨r, hr, hst, -, hn⟩
  · rw [he, hs]
    exact State.noConfusion
  · have htab : ∀ r ∈ transitionTable, r.start = .established → r.next ≠ .synRcvd := by decide
    rw [← hn]
    exact htab r hr (hst.trans hs)

/-! ## The next segment -/

theorem Config.Reachable.confirms (h : c.Reachable m) (hs : m.state = .synRcvd)
    (hp : p.tcp.flags = TCP.ACK) : Moves c m p { m.receive c p with state := .established } [] := by
  refine .confirmed (h.rested.fresh (e := .ack) hp ?_ (by decide)) hs hp
  rw [hs]
  decide

/-- **The next segment repairs a lost ACK exactly when it is a bare ACK.** -/
theorem repairs_iff (h : c.Reachable m) (hs : m.state = .synRcvd) (hp : p.AfterAck) :
    Repairs c m p ↔ p.tcp.flags = TCP.ACK := by
  constructor
  · intro ⟨m₂, o₁, o₂, hst, hr, _⟩
    by_contra hfl
    -- alone the segment stays in `SYN_RCVD`; after the bare ACK it does not
    obtain ⟨hs₂, -⟩ := synRcvd_step hs hfl (step_moves hst)
    obtain ⟨m₁, _, _, hack, hr₁, -⟩ := hr.cons_inv
    rw [(h.confirms hs (p := p.bareAck) rfl).step] at hack
    cases hack
    obtain ⟨m₃, _, _, hst₃, hr₃, -⟩ := hr₁.cons_inv
    obtain rfl := hr₃.nil_inv
    exact established_step rfl (step_moves hst₃) hs₂
  · intro hfl
    have hpay : p.tcp.payload = [] := by
      rcases hp with ⟨-, hp⟩ | ⟨hp, -⟩ | hp
      · exact hp
      · exact absurd (hfl.symm.trans hp) (by decide)
      · exact absurd (hfl.symm.trans hp) (by decide)
    have hbare : p.bareAck = p := by
      unfold Packet.bareAck
      rw [← hfl, ← hpay]
    have hm := h.confirms hs hfl
    refine ⟨_, _, [], hm.step, ?_, rfl⟩
    rw [hbare]
    refine hm.reads_replicate ?_ 1
    rw [hs]
    exact State.noConfusion

/-- The client's request, whose numbers acknowledge the SYN|ACK. -/
def firstRequest : Packet := (sampleClient 40000).seg (TCP.PSH ||| TCP.ACK) 1001 31332 [71]

/-- A responder that answered the SYN of `handshake`. -/
def synAnswered : List Step :=
  (exec echo.step start (handshake.take 1)).toOption.getD []

theorem synAnswered_run : Run echo.step start synAnswered (final start synAnswered) := by
  have he : exec echo.step start (handshake.take 1) = .ok synAnswered := rfl
  exact (Run.of_exec he).1

theorem repairs_iff_request :
    Repairs echo (final start synAnswered) firstRequest ↔ firstRequest.tcp.flags = TCP.ACK :=
  repairs_iff ⟨_, synAnswered_run⟩ rfl (.inr (.inl ⟨rfl, by decide⟩))

/-- **A request does not repair the lost ACK before it.** -/
theorem lost_ack_unrepaired :
    ¬ ∀ (c : Config) (T : List Step) (m : Machine) (p : Packet), Run c.step start T m →
      m.state = .synRcvd → m.ofStream p = true →
      (∃ b, (sent (outputs T)).getLast? = some b ∧ p.tcp.ackSeq = b.tcp.seq + 1) →
      p.AfterAck → Repairs c m p := by
  intro h
  obtain ⟨m', o₁, o₂, hst, hr, -⟩ := h echo synAnswered _ firstRequest synAnswered_run rfl rfl
    ⟨_, rfl, rfl⟩ (.inr (.inl ⟨rfl, by decide⟩))
  obtain ⟨m₁, _, _, hack, hr₁, -⟩ := hr.cons_inv
  obtain ⟨m₂, _, _, hst₂, hr₂, -⟩ := hr₁.cons_inv
  obtain rfl := hr₂.nil_inv
  cases hst
  cases hack
  cases hst₂

end Integratio
