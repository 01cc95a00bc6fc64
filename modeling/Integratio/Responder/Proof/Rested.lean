import Integratio.Responder.Client
import Integratio.Responder.Proof.Inv

/-!
# The last received packet has had its effect

In every reachable state the last received packet has no row in the transition table any more,
unless it is a request that was answered (`Rested`, `Config.Reachable.rested`): a row leads to a
state without a row for the same event, but for the request's, which needs a payload. So the
retransmission check never swallows a packet that the current state waits for.

* `completes_on_any_ack`: an ACK completes the handshake, and the close, whatever its number is and
  whoever sent it.
-/

namespace Integratio

open Transducer Machine

/-- The last received packet has had its effect (module doc). -/
def Rested (m : Machine) : Prop :=
  ∀ e : Event, m.tcpR.flags = e.flags → row? m.state e = none ∨
    (m.state = .established ∧ e = .pshAck ∧ m.tcpR.payload ≠ [])

variable {c : Config} {m m' : Machine} {p q : Packet} {out : List Effect} {T : List Step}

/-! ## The invariant -/

/-- A packet with one event and no row for it is at rest. -/
theorem Rested.of_none {e : Event} (hf : m.tcpR.flags = e.flags) (hr : row? m.state e = none) :
    Rested m := by
  intro e' he'
  obtain rfl := Event.flags_inj (hf.symm.trans he')
  exact .inl hr

theorem start_rested : Rested start := by
  intro e he
  exact absurd he (by cases e <;> decide)

theorem Rested.step (h : Rested m) (hm : Moves c m p m' out) : Rested m' := by
  cases hm with
  | dropped =>
    intro e he
    simpa using h e (by simpa using he)
  | noted _ hrow =>
    intro e he
    simp only [receive_tcpR, TCP.assign_flags] at he
    exact .inl (by simpa using hrow e he)
  | opened _ _ hfl => exact .of_none (e := .syn) ((TCP.assign_flags ..).trans hfl) rfl
  | confirmed _ _ hfl =>
    refine .of_none (e := .ack) ?_ rfl
    rw [receive_tcpR, TCP.assign_flags]
    exact hfl
  | answered _ hst hfl hp =>
    intro e he
    simp only [receive_tcpR, TCP.assign_flags] at he
    have he' : e = .pshAck := Event.flags_inj (he.symm.trans hfl)
    exact .inr ⟨by simpa using hst, he', by simpa [TCP.assign_payload _ _ _ hp] using hp⟩
  | finished _ _ hfl =>
    refine .of_none (e := .finAck) ?_ rfl
    rw [receive_tcpR, TCP.assign_flags]
    exact hfl
  | closed => exact start_rested

theorem Config.Reachable.rested (h : c.Reachable m) : Rested m := by
  obtain ⟨T, hT⟩ := h
  exact hT.inv Rested (fun _ _ _ _ hr hs => hr.step (step_moves hs)) start_rested

/-- A packet that the state has a row for, and that is no request, is not a retransmission. -/
theorem Rested.fresh (h : Rested m) {e : Event} (hp : p.tcp.flags = e.flags)
    (hrow : row? m.state e ≠ none) (he : e ≠ .pshAck) : m.retransmitted p = false := by
  rw [Bool.eq_false_iff]
  intro hre
  obtain ⟨-, -, hfl, -⟩ := retransmitted_iff.1 hre
  rcases h e (hfl.trans hp) with hn | ⟨-, hpsh, -⟩
  · exact hrow hn
  · exact he hpsh

/-! ## Acknowledgements of the handshake and of the close -/

/-- The last packet sent has the flags `f`. -/
def LastSent (f : BitVec 12) (T : List Step) : Prop :=
  ∃ b, (sent (outputs T)).getLast? = some b ∧ b.tcp.flags = f

/-- What a responder that waits for an ACK has sent last. -/
def Waits (T : List Step) (m : Machine) : Prop :=
  (m.state = .synRcvd → LastSent (TCP.SYN ||| TCP.ACK) T) ∧
    (m.state = .closeWait → LastSent (TCP.FIN ||| TCP.ACK) T)

/-- A step that sends nothing and keeps the state, or leads to one that waits for nothing. -/
theorem Waits.quiet (h : Waits T m) {t : Step} (ho : sent t.out = [])
    (hst : m'.state = m.state ∨ m'.state = .established ∨ m'.state = .listen) :
    Waits (T ++ [t]) m' := by
  have hlast : ∀ f, LastSent f T → LastSent f (T ++ [t]) := by
    rintro f ⟨b, hb, hf⟩
    exact ⟨b, by simpa [ho] using hb, hf⟩
  rcases hst with he | he | he
  · exact ⟨fun h' => hlast _ (h.1 (he ▸ h')), fun h' => hlast _ (h.2 (he ▸ h'))⟩
  · exact ⟨fun h' => by simp [he] at h', fun h' => by simp [he] at h'⟩
  · exact ⟨fun h' => by simp [he] at h', fun h' => by simp [he] at h'⟩

theorem Waits.step (h : Waits T m) (hm : Moves c m p m' out) :
    Waits (T ++ [⟨m, p, m', out⟩]) m' := by
  cases hm with
  | dropped => exact h.quiet rfl (.inl (by simp))
  | noted => exact h.quiet rfl (.inl (by simp))
  | opened =>
    refine ⟨fun _ => ⟨⟨(m.opened c p).ipS, (m.opened c p).tcpS⟩, by simp, rfl⟩, fun hst => ?_⟩
    simp [Machine.opened] at hst
  | confirmed => exact h.quiet rfl (.inr (.inl rfl))
  | answered _ hst =>
    exact ⟨fun h' => by simp [hst] at h', fun h' => by simp [hst] at h'⟩
  | finished =>
    exact ⟨fun hst => by simp at hst, fun _ => ⟨⟨(m.fixupAddr p).ipS, m.finTcp p⟩, by simp, rfl⟩⟩
  | closed => exact h.quiet rfl (.inr (.inr rfl))

theorem run_waits (h : Run c.step start T m) : Waits T m := by
  refine h.history Waits (fun _ _ _ _ _ _ hw hs => hw.step (step_moves hs)) ⟨?_, ?_⟩
  · intro hst
    cases hst
  · intro hst
    cases hst

/-- The state after an ACK that the state waits for. -/
def State.afterAck : State → State
  | .synRcvd => .established
  | .closeWait => .listen
  | s => s

theorem Rested.on_ack (h : Rested m) (hst : m.state = .synRcvd ∨ m.state = .closeWait)
    (hm : Moves c m p m' out) :
    p.tcp.flags = TCP.ACK ∧ m'.state = m.state.afterAck ∨
      p.tcp.flags ≠ TCP.ACK ∧ m'.state = m.state := by
  have hrow : row? m.state .ack ≠ none := by
    rcases hst with he | he <;> rw [he] <;> decide
  cases hm with
  | dropped hre =>
    refine .inr ⟨fun hfl => ?_, by simp⟩
    rw [h.fresh (e := .ack) hfl hrow (by decide)] at hre
    cases hre
  | noted _ hno => exact .inr ⟨fun hfl => hrow (hno .ack hfl), by simp⟩
  | confirmed _ he hfl => exact .inl ⟨hfl, by simp [he, State.afterAck]⟩
  | closed _ he hfl => exact .inl ⟨hfl, by simp [he, State.afterAck, start, onEntry]⟩
  | opened _ he => rcases hst with h' | h' <;> rw [he] at h' <;> cases h'
  | answered _ he => rcases hst with h' | h' <;> rw [he] at h' <;> cases h'
  | finished _ he => rcases hst with h' | h' <;> rw [he] at h' <;> cases h'

/-- **Any ACK completes the handshake, and the close**: at every step from `SYN_RCVD` the last
packet sent is the SYN|ACK, and the step leads to `ESTABLISHED` exactly when its packet is an ACK;
at every step from `CLOSE_WAIT` it is the FIN|ACK, and the step leads to `LISTEN` exactly when its
packet is an ACK. -/
theorem completes_on_any_ack (h : Run c.step start T m) :
    Always (fun T₁ t =>
      (t.src.state = .synRcvd → LastSent (TCP.SYN ||| TCP.ACK) T₁ ∧
        (t.dst.state = .established ↔ t.inp.tcp.flags = TCP.ACK)) ∧
      (t.src.state = .closeWait → LastSent (TCP.FIN ||| TCP.ACK) T₁ ∧
        (t.dst.state = .listen ↔ t.inp.tcp.flags = TCP.ACK))) T := by
  rintro T₁ t T₂ rfl
  obtain ⟨h₁, hs, -⟩ := h.split_cons
  have hm := step_moves hs
  have hr := Config.Reachable.rested ⟨T₁, h₁⟩
  constructor
  · intro hst
    refine ⟨(run_waits h₁).1 hst, ?_⟩
    rcases hr.on_ack (.inl hst) hm with ⟨hfl, hd⟩ | ⟨hfl, hd⟩
    · exact iff_of_true (by rw [hd, hst]; rfl) hfl
    · exact iff_of_false (by rw [hd, hst]; decide) hfl
  · intro hst
    refine ⟨(run_waits h₁).2 hst, ?_⟩
    rcases hr.on_ack (.inr hst) hm with ⟨hfl, hd⟩ | ⟨hfl, hd⟩
    · exact iff_of_true (by rw [hd, hst]; rfl) hfl
    · exact iff_of_false (by rw [hd, hst]; decide) hfl

theorem handshake_run : Run ({} : Config).step start handshakeRun (final start handshakeRun) :=
  (Run.of_exec (show exec ({} : Config).step start handshake = .ok handshakeRun from rfl)).1

theorem completes_on_any_ack_handshake :
    ∃ b, (sent (outputs (handshakeRun.take 1))).getLast? = some b ∧
      b.tcp.flags = TCP.SYN ||| TCP.ACK :=
  ((completes_on_any_ack handshake_run (handshakeRun.take 1) handshakeRun[1] [] rfl).1 rfl).1

/-- A SYN of a client, and an ACK of a number that was never sent. -/
def wrongAck : List Packet :=
  [(sampleClient 40000).seg TCP.SYN 1000 0 [], (sampleClient 40000).seg TCP.ACK 1001 7 []]

def wrongAckRun : List Step := (exec ({} : Config).step start wrongAck).toOption.getD []

/-- **A handshake can be completed by an ACK of another number.** -/
theorem wrong_ack :
    ¬ ∀ (c : Config) (T : List Step) (m : Machine), Run c.step start T m →
      Always (fun T₁ t =>
        (t.src.state = .synRcvd → t.dst.state = .established →
          t.inp.tcp.flags = TCP.ACK ∧ ∃ b ∈ (sent (outputs T₁)).getLast?,
            b.tcp.flags = TCP.SYN ||| TCP.ACK ∧ t.inp.tcp.ackSeq = b.tcp.seq + 1) ∧
        (t.src.state = .closeWait → t.dst.state = .listen →
          t.inp.tcp.flags = TCP.ACK ∧ ∃ b ∈ (sent (outputs T₁)).getLast?,
            b.tcp.flags = TCP.FIN ||| TCP.ACK ∧ t.inp.tcp.ackSeq = b.tcp.seq + 1)) T := by
  intro h
  have he : exec ({} : Config).step start wrongAck = .ok wrongAckRun := rfl
  obtain ⟨-, b, hb, -, hack⟩ :=
    (h {} wrongAckRun _ (Run.of_exec he).1 (wrongAckRun.take 1) wrongAckRun[1] [] rfl).1 rfl rfl
  obtain rfl := Option.some.inj hb
  exact absurd hack (by decide)

end Integratio
