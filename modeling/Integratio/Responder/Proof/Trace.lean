import Mathlib.Computability.RegularExpressions
import Integratio.Responder.Client
import Integratio.Responder.Proof.Inv

/-!
# The packets a responder sends

`trace_conforms`: over any packets, the flags of the packets sent are a prefix of a word of
`(SYN|ACK ACK* FIN|ACK)*` (`sessions`), and every packet goes from the destination of the SYN that
opened its block to that SYN's source, whatever other clients' packets were processed in between.
The state fixes what the word so far looks like (`Word`), the invariant `Bound` the ports and
`Addressed` the addresses.
-/

namespace Integratio

open Transducer Machine RegularExpression

variable {c : Config} {m m' : Machine} {p q : Packet} {out : List Effect}

/-- `(SYN|ACK ACK* FIN|ACK)*`. -/
def sessions : RegularExpression (BitVec 12) :=
  star (char (TCP.SYN ||| TCP.ACK) * star (char TCP.ACK) * char (TCP.FIN ||| TCP.ACK))

/-- The flags of the packets among the effects. -/
def sentFlags (es : List Effect) : List (BitVec 12) := (sent es).map (·.tcp.flags)

/-- The packet goes from the destination of `q` to its source. -/
def Answers (q pkt : Packet) : Prop :=
  pkt.ip = { srcAddr := q.ip.dstAddr, dstAddr := q.ip.srcAddr } ∧
    pkt.tcp.sport = q.tcp.dport ∧ pkt.tcp.dport = q.tcp.sport

/-- The flags sent so far, by the state reached. -/
def Word : State → List (BitVec 12) → Prop
  | .listen, w | .closeWait, w => w ∈ sessions.matches'
  | _, w => ∃ v ∈ sessions.matches', ∃ n,
      w = v ++ (TCP.SYN ||| TCP.ACK) :: List.replicate n TCP.ACK

/-! ## Words -/

theorem sessions_nil : [] ∈ sessions.matches' := by
  rw [sessions, matches'_star, Language.mem_kstar]
  exact ⟨[], rfl, by simp⟩

theorem replicate_mem (n : Nat) : List.replicate n TCP.ACK ∈ (char TCP.ACK).star.matches' := by
  rw [matches'_star, Language.mem_kstar]
  refine ⟨List.replicate n [TCP.ACK], ?_, fun y hy => ?_⟩
  · simp
  · rw [List.eq_of_mem_replicate hy, matches'_char]
    rfl

theorem sessions_block {v : List (BitVec 12)} (hv : v ∈ sessions.matches') (n : Nat) :
    v ++ (TCP.SYN ||| TCP.ACK) :: List.replicate n TCP.ACK ++ [TCP.FIN ||| TCP.ACK] ∈
      sessions.matches' := by
  rw [sessions, matches'_star, Language.mem_kstar] at hv ⊢
  obtain ⟨bs, rfl, hbs⟩ := hv
  refine ⟨bs ++ [(TCP.SYN ||| TCP.ACK) :: List.replicate n TCP.ACK ++ [TCP.FIN ||| TCP.ACK]],
    by simp, fun b hb => ?_⟩
  rcases List.mem_append.1 hb with hb | hb
  · exact hbs b hb
  · rw [List.mem_singleton.1 hb, matches'_mul, matches'_mul]
    exact Language.append_mem_mul (Language.append_mem_mul (a := [_]) rfl (replicate_mem n)) rfl

/-- Every word so far is a prefix of a word. -/
theorem Word.isPrefix {s : State} {w : List (BitVec 12)} (h : Word s w) :
    ∃ v ∈ sessions.matches', w <+: v := by
  have hopen : (∃ v ∈ sessions.matches', ∃ n,
      w = v ++ (TCP.SYN ||| TCP.ACK) :: List.replicate n TCP.ACK) →
      ∃ v ∈ sessions.matches', w <+: v := by
    rintro ⟨v, hv, n, rfl⟩
    exact ⟨_, sessions_block hv n, List.prefix_append _ _⟩
  cases s with
  | listen => exact ⟨w, h, List.prefix_refl w⟩
  | closeWait => exact ⟨w, h, List.prefix_refl w⟩
  | synRcvd => exact hopen h
  | established => exact hopen h

@[simp] theorem sentFlags_nil : sentFlags [] = [] := rfl

@[simp] theorem sentFlags_append (es fs : List Effect) :
    sentFlags (es ++ fs) = sentFlags es ++ sentFlags fs := by
  simp [sentFlags]

/-- One step extends the word as its state says. -/
theorem Word.step {w : List (BitVec 12)} (h : Word m.state w) (hm : Moves c m p m' out) :
    Word m'.state (w ++ sentFlags out) := by
  cases hm with
  | dropped => simpa using h
  | noted => simpa using h
  | opened _ hst =>
    rw [hst] at h
    exact ⟨w, h, 0, by simp [sentFlags, Machine.opened]⟩
  | confirmed _ hst =>
    rw [hst] at h
    rw [sentFlags_nil, List.append_nil]
    exact h
  | answered _ hst =>
    rw [hst] at h
    obtain ⟨v, hv, n, rfl⟩ := h
    simp only [receive_state, hst]
    refine ⟨v, hv, n + 1, ?_⟩
    simp [sentFlags, dataTcp, List.replicate_succ']
  | finished _ hst =>
    rw [hst] at h
    obtain ⟨v, hv, n, rfl⟩ := h
    show v ++ _ ++ _ ∈ sessions.matches'
    have := sessions_block hv n
    simpa [sentFlags, finTcp] using this
  | closed _ hst =>
    rw [hst] at h
    rw [sentFlags_nil, List.append_nil]
    exact h

/-! ## Addresses -/

/-- A bound responder answers the SYN it is bound to. -/
theorem Bound.answers (h : Bound m q) (ha : Addressed m q) (hq : q.ip.dstAddr ≠ 0)
    (hm : Moves c m p m' out) : ∀ pkt ∈ sent out, Answers q pkt := by
  have hf := (ha.fixupAddr (p := p) (.inl hq)).trans ha
  intro pkt hpkt
  cases hm with
  | opened _ hst => exact (h.state hst).elim
  | answered =>
    simp only [sent_append, sent_ask, sent_send, List.nil_append, List.mem_singleton] at hpkt
    rw [hpkt]
    exact ⟨hf, h.sport, h.dport⟩
  | finished =>
    rw [sent_send, List.mem_singleton] at hpkt
    rw [hpkt]
    exact ⟨hf, h.sport, h.dport⟩
  | _ => cases hpkt

theorem run_addressed {T : List Step} (h : Run c.step start T m)
    (hz : ∀ p ∈ inputs T, p.ip.srcAddr ≠ 0 ∧ p.ip.dstAddr ≠ 0) :
    ∀ q, opener T = some q → Bound m q → Addressed m q ∧ q.ip.dstAddr ≠ 0 := by
  induction h with
  | nil => intro q hq; cases hq
  | @snoc T m m' p out hT hs ih =>
    have hm := step_moves hs
    have ih := ih fun p hp => hz p (by simp [hp])
    intro q ho hb
    rw [opener_snoc] at ho
    rcases run_phase hT with hL | ⟨q', ho', -, hb'⟩
    · rcases hL.step hm with ⟨hL', -⟩ | ⟨-, rfl, -, ha, rfl⟩
      · exact (hb.state hL'.state).elim
      · rw [if_pos (by simp [answersSyn, Machine.opened])] at ho
        cases ho
        exact ⟨ha, (hz _ (by simp)).2⟩
    · rw [hb'.not_answersSyn hm, if_neg (by simp), ho'] at ho
      cases ho
      obtain ⟨ha, hq⟩ := ih q ho' hb'
      rcases ha.step hb' (.inl hq) hm with ha' | rfl
      · exact ⟨ha', hq⟩
      · exact (hb.state rfl).elim

/-- **The trace of a responder** (module doc). -/
theorem trace_conforms (c : Config) {T : List Step} (h : Run c.step start T m)
    (hz : ∀ p ∈ inputs T, p.ip.srcAddr ≠ 0 ∧ p.ip.dstAddr ≠ 0) :
    (∃ w ∈ sessions.matches', sentFlags (outputs T) <+: w) ∧
    ∀ T₁ t T₂, T = T₁ ++ t :: T₂ → ∀ pkt ∈ sent t.out,
      ∃ q, opener (T₁ ++ [t]) = some q ∧ q.tcp.flags = TCP.SYN ∧ Answers q pkt ∧
        (pkt.tcp.flags = TCP.SYN ||| TCP.ACK → pkt.tcp.ackSeq = q.tcp.seq + 1) := by
  refine ⟨?_, ?_⟩
  · have hw : Word m.state (sentFlags (outputs T)) := by
      refine h.history (fun T (m : Machine) => Word m.state (sentFlags (outputs T)))
        (fun T m p m' out _ hw hs => ?_) sessions_nil
      simpa using hw.step (step_moves hs)
    exact hw.isPrefix
  · rintro T₁ ⟨m₁, p, m₂, out⟩ T₂ rfl pkt hpkt
    obtain ⟨h₁, hs, -⟩ := h.split_cons
    have hm := step_moves hs
    rcases run_phase h₁ with hL | ⟨q, ho, hq, hb⟩
    · rcases hL.step hm with ⟨-, rfl⟩ | ⟨hfl, hm₂, -, -, hout⟩
      · cases hpkt
      · dsimp only at hout hm₂ hpkt
        subst hout hm₂
        rw [sent_send, List.mem_singleton] at hpkt
        subst hpkt
        refine ⟨p, ?_, hfl, ⟨rfl, rfl, rfl⟩, fun _ => rfl⟩
        rw [opener_snoc, if_pos (by simp [answersSyn, Machine.opened])]
    · have hno := hb.not_answersSyn hm
      obtain ⟨ha, hz'⟩ := run_addressed h₁ (fun p hp => hz p (by simp [hp])) q ho hb
      refine ⟨q, ?_, hq, hb.answers ha hz' hm pkt hpkt, fun hf => ?_⟩
      · rw [opener_snoc, hno]
        exact ho
      · simp only [answersSyn, List.any_eq_false, decide_eq_true_eq] at hno
        exact (hno pkt hpkt hf).elim

/-- A handshake between two foreign packets, a request and a close. -/
def mixedTraffic : List Packet :=
  [(sampleClient 39999).seg TCP.ACK 5 70000 [], (sampleClient 40000).seg TCP.SYN 1000 0 [],
    (sampleClient 39999).seg TCP.SYN 6 0 [], (sampleClient 40000).seg TCP.ACK 1001 70001 [],
    (sampleClient 40000).seg (TCP.PSH ||| TCP.ACK) 1001 70001 [71],
    (sampleClient 40000).seg (TCP.FIN ||| TCP.ACK) 1002 70001 []]

theorem trace_conforms_mixed :
    (∃ w ∈ sessions.matches', [TCP.SYN ||| TCP.ACK, TCP.ACK, TCP.FIN ||| TCP.ACK] <+: w) ∧
    ∀ T₁ t T₂, (exec ({} : Config).step start mixedTraffic).toOption.getD [] = T₁ ++ t :: T₂ →
      ∀ pkt ∈ sent t.out,
        ∃ q, opener (T₁ ++ [t]) = some q ∧ q.tcp.flags = TCP.SYN ∧ Answers q pkt ∧
          (pkt.tcp.flags = TCP.SYN ||| TCP.ACK → pkt.tcp.ackSeq = q.tcp.seq + 1) := by
  have he : exec ({} : Config).step start mixedTraffic =
    .ok ((exec ({} : Config).step start mixedTraffic).toOption.getD []) := rfl
  obtain ⟨hr, hi⟩ := Run.of_exec he
  exact trace_conforms {} hr (by rw [hi]; decide)

end Integratio
