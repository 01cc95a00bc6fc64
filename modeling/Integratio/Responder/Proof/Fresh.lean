import Mathlib.Data.List.MinMax
import Integratio.Responder.Client
import Integratio.Responder.Proof.Inv

/-!
# What a connection leaves behind

* `closed_as_new`: the packet that returns a responder from `CLOSE_WAIT` to `LISTEN` leaves the
  state of a new responder, so two runs that end so have the same continuations.
* `opening_synAck`: the SYN|ACK for a SYN is the same from every reachable `LISTEN` state but for
  its sequence number. That number is not the one set on entering `LISTEN`: packets that arrive in
  `LISTEN` raise it to their ACK, so it is the largest of `initialSeq`, the ACKs received since
  `LISTEN` was entered and the ACK of the SYN (`highest`, `run_listenSeq`).
-/

namespace Integratio

open Transducer Machine

variable {c : Config} {m m' : Machine} {p q : Packet} {out : List Effect}

/-! ## After a connection -/

/-- The step returns the machine from `CLOSE_WAIT` to `LISTEN`. -/
def Closes (t : Step) : Prop :=
  t.src.state = .closeWait ∧ t.dst.state = .listen

theorem Moves.eq_start (h : Moves c m p m' out) (hs : m.state = .closeWait)
    (hl : m'.state = .listen) : m' = start ∧ out = [] := by
  cases h with
  | dropped => simp [hs] at hl
  | noted => simp [hs] at hl
  | opened => simp [Machine.opened] at hl
  | confirmed => simp at hl
  | answered => simp [hs] at hl
  | finished => simp at hl
  | closed => exact ⟨rfl, rfl⟩

theorem Run.eq_start {T : List Step} {t : Step}
    (h : Run c.step start (T ++ [t]) m) (hc : Closes t) : m = start := by
  obtain ⟨-, hs, rfl⟩ := h.snoc_inv
  exact ((step_moves hs).eq_start hc.1 hc.2).1

/-- **A closed connection leaves nothing behind.** -/
theorem closed_as_new (c : Config) {T₁ T₂ : List Step} {t₁ t₂ : Step} {m₁ m₂ : Machine}
    (h₁ : Run c.step start (T₁ ++ [t₁]) m₁) (h₂ : Run c.step start (T₂ ++ [t₂]) m₂)
    (hc₁ : Closes t₁) (hc₂ : Closes t₂) :
    m₁ = start ∧ m₂ = start ∧ ∀ ps, exec c.step m₁ ps = exec c.step m₂ ps := by
  obtain rfl := Run.eq_start h₁ hc₁
  obtain rfl := Run.eq_start h₂ hc₂
  exact ⟨rfl, rfl, fun _ => rfl⟩

def lastAck (seq : BitVec 32) : Step :=
  ⟨final start untilFinRun, (sampleClient 40000).seg TCP.ACK seq 31333 [], start, []⟩

theorem closed_as_new_twice :
    exec ({} : Config).step (lastAck 1002).dst untilFin =
      exec ({} : Config).step (lastAck 7).dst untilFin := by
  have he : exec ({} : Config).step start untilFin = .ok untilFinRun := rfl
  have hT := (Run.of_exec he).1
  exact (closed_as_new {} (hT.snoc (i := (lastAck 1002).inp) rfl)
    (hT.snoc (i := (lastAck 7).inp) rfl) ⟨rfl, rfl⟩ ⟨rfl, rfl⟩).2.2 untilFin

/-! ## Before a connection -/

/-- The packets received since `LISTEN` was last entered. -/
def sinceListen (T : List Step) : List Packet :=
  T.foldl (fun ps t =>
    if t.src.state ≠ .listen ∧ t.dst.state = .listen then [] else ps ++ [t.inp]) []

/-- The largest of the initial sequence number and the ACKs of some packets. -/
def highest (ps : List Packet) : Nat :=
  ps.foldl (fun n p => max n p.tcp.ackSeq.toNat) initialSeq.toNat

/-- The SYN|ACK for the SYN `q` with sequence number `s`. -/
def synAck (q : Packet) (s : BitVec 32) : Packet :=
  { ip := { srcAddr := q.ip.dstAddr, dstAddr := q.ip.srcAddr }
    tcp :=
      { sport := q.tcp.dport, dport := q.tcp.sport, seq := s, ackSeq := q.tcp.seq + 1
        flags := TCP.SYN ||| TCP.ACK } }

theorem sinceListen_snoc (T : List Step) (t : Step) :
    sinceListen (T ++ [t]) =
      if t.src.state ≠ .listen ∧ t.dst.state = .listen then [] else sinceListen T ++ [t.inp] := by
  simp only [sinceListen, List.foldl_append, List.foldl_cons, List.foldl_nil]

theorem highest_snoc (ps : List Packet) (p : Packet) :
    highest (ps ++ [p]) = max (highest ps) p.tcp.ackSeq.toNat := by
  simp [highest]

/-- The local SEQ of a listening responder, and of its last received packet's ACK below it. -/
def ListenSeq (T : List Step) (m : Machine) : Prop :=
  m.state = .listen →
    m.tcpS.seq.toNat = highest (sinceListen T) ∧ m.tcpR.ackSeq.toNat ≤ m.tcpS.seq.toNat

theorem run_listenSeq {T : List Step} (h : Run c.step start T m) :
    ListenSeq T m := by
  refine h.history ListenSeq (fun T m p m' out hT hP hs => ?_) fun _ => ⟨rfl, Nat.zero_le _⟩
  have hm := step_moves hs
  intro hl
  rcases run_phase hT with hL | ⟨q, -, -, hb⟩
  · obtain ⟨hseq, hle⟩ := hP hL.state
    rw [sinceListen_snoc, if_neg fun hc => hc.1 hL.state, highest_snoc]
    cases hm with
    | dropped hre =>
      have hack : m.tcpR.ackSeq = p.tcp.ackSeq := (retransmitted_iff.1 hre).1
      rw [fixupAddr_tcpS, fixupAddr_tcpR, ← hack, hseq]
      omega
    | noted =>
      simp only [receive_tcpS, receive_tcpR, TCP.assign_ackSeq, seqAfter_toNat (.inl hL.stream)]
      omega
    | opened => simp [Machine.opened] at hl
    | confirmed => simp at hl
    | answered _ hst => rw [hL.state] at hst; cases hst
    | finished => simp at hl
    | closed _ hst => rw [hL.state] at hst; cases hst
  · rcases hb.step hm with hb' | ⟨hst, -, rfl, -⟩
    · exact (hb'.state hl).elim
    · rw [sinceListen_snoc, if_pos ⟨by simp [hst], hl⟩]
      exact ⟨rfl, Nat.zero_le _⟩

theorem Listening.synAck (h : Listening m) :
    (⟨(m.opened c q).ipS, (m.opened c q).tcpS⟩ : Packet) = synAck q (m.seqAfter q) := by
  simp [Machine.opened, Integratio.synAck, h.payload]

/-- **The opening of a connection.** -/
theorem opening_synAck (c : Config) {T₁ T₂ : List Step} {m₁ m₂ : Machine} {q : Packet}
    (h₁ : Run c.step start T₁ m₁) (h₂ : Run c.step start T₂ m₂)
    (hl₁ : m₁.state = .listen) (hl₂ : m₂.state = .listen) (hq : q.tcp.flags = TCP.SYN) :
    ∃ m₁' out₁ m₂' out₂ s₁ s₂,
      c.step m₁ q = .ok (m₁', out₁) ∧ c.step m₂ q = .ok (m₂', out₂) ∧
      sent out₁ = [synAck q s₁] ∧ sent out₂ = [synAck q s₂] ∧
      s₁.toNat = highest (sinceListen T₁ ++ [q]) ∧
      s₂.toNat = highest (sinceListen T₂ ++ [q]) := by
  have key : ∀ {T m}, Run c.step start T m → m.state = .listen →
      ∃ m' out, c.step m q = .ok (m', out) ∧ sent out = [synAck q (m.seqAfter q)] ∧
        (m.seqAfter q).toNat = highest (sinceListen T ++ [q]) := by
    intro T m hT hl
    have hL := Config.Reachable.listening ⟨T, hT⟩ hl
    refine ⟨_, _, (hL.opens hq).step, ?_, ?_⟩
    · rw [sent_send, hL.synAck]
    · rw [seqAfter_toNat (.inl hL.stream), highest_snoc, (run_listenSeq hT hl).1]
  obtain ⟨m₁', out₁, hs₁, ho₁, hn₁⟩ := key h₁ hl₁
  obtain ⟨m₂', out₂, hs₂, ho₂, hn₂⟩ := key h₂ hl₂
  exact ⟨m₁', out₁, m₂', out₂, _, _, hs₁, hs₂, ho₁, ho₂, hn₁, hn₂⟩

/-- Two new responders, one of which got a stray ACK, and the SYN of a client. -/
theorem opening_synAck_sample : ∃ m₁' out₁ m₂' out₂ s₁ s₂,
    ({} : Config).step start ((sampleClient 40000).seg TCP.SYN 1000 0 []) = .ok (m₁', out₁) ∧
    ({} : Config).step (start.receive {} ((sampleClient 39999).seg TCP.ACK 5 70000 []))
      ((sampleClient 40000).seg TCP.SYN 1000 0 []) = .ok (m₂', out₂) ∧
    sent out₁ = [synAck ((sampleClient 40000).seg TCP.SYN 1000 0 []) s₁] ∧
    sent out₂ = [synAck ((sampleClient 40000).seg TCP.SYN 1000 0 []) s₂] ∧
    s₁.toNat = 31331 ∧ s₂.toNat = 70000 :=
  opening_synAck {} .nil (.single (i := (sampleClient 39999).seg TCP.ACK 5 70000 []) rfl) rfl rfl
    rfl

/-- The SYN|ACK is not the same packet from every reachable `LISTEN` state. -/
theorem opening_depends_on_history :
    ¬ ∀ (c : Config) (m₁ m₂ : Machine) (q : Packet), c.Reachable m₁ → c.Reachable m₂ →
      m₁.state = .listen → m₂.state = .listen → q.tcp.flags = TCP.SYN →
      ∀ m₁' out₁ m₂' out₂, c.step m₁ q = .ok (m₁', out₁) → c.step m₂ q = .ok (m₂', out₂) →
        sent out₁ = sent out₂ := by
  intro h
  let stray := (sampleClient 39999).seg TCP.ACK 5 70000 []
  have := h {} start (start.receive {} stray) ((sampleClient 40000).seg TCP.SYN 1000 0 [])
    (.refl _) ⟨_, .single (i := stray) rfl⟩ rfl rfl rfl _ _ _ _ rfl rfl
  exact absurd this (by decide)

end Integratio
