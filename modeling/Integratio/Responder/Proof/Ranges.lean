import Integratio.Responder.Client
import Integratio.Responder.Proof.Inv

/-!
# The sequence ranges a responder sends

Sending does not advance `tcp_s.seq`: it is the largest of the SYN|ACK's sequence number and the
ACKs of the stream's packets that were not dropped (`SeqOf`, `conn_seqOf`). So the ranges of the
data segments of a connection are disjoint and increasing, and the FIN|ACK follows them, exactly
when the client has acknowledged all data sent before whenever the responder sends data or its
FIN|ACK (`inOrder_iff`). `pipelined_overlap` is a client that sends its second request before it
acknowledges the first response.
-/

namespace Integratio

open Transducer Machine

variable {c : Config} {m m' m₀ m₁ : Machine} {p q : Packet} {out : List Effect} {s v : BitVec 32}
  {T : List Step}

/-- The end of a segment's payload. -/
def Packet.dataEnd (p : Packet) : Nat := p.tcp.seq.toNat + p.tcp.payload.length

/-- A data segment. -/
def Packet.HasData (p : Packet) : Prop := p.tcp.payload ≠ []

/-- The ranges of the data segments are disjoint and increasing, and a FIN|ACK follows them. -/
def InOrder (ps : List Packet) : Prop :=
  ps.Pairwise fun a b =>
    a.HasData → (b.HasData ∨ b.tcp.flags = TCP.FIN ||| TCP.ACK) → a.dataEnd ≤ b.tcp.seq.toNat

/-- A packet of the stream of `q` that was not dropped as a retransmission. -/
def Heard (q : Packet) (t : Step) : Prop :=
  t.src.retransmitted t.inp = false ∧ t.inp.tcp.sport = q.tcp.sport

/-- When the step sends data or a FIN|ACK, the client has acknowledged all data sent before. -/
def AckedBefore (q : Packet) (T : List Step) (t : Step) : Prop :=
  ∀ b ∈ sent t.out, (b.HasData ∨ b.tcp.flags = TCP.FIN ||| TCP.ACK) →
    ∀ a ∈ sent (outputs T), a.HasData →
      ∃ t' ∈ T ++ [t], Heard q t' ∧ a.dataEnd ≤ t'.inp.tcp.ackSeq.toNat

/-! ## The local SEQ -/

/-- `v` is the largest of `s` and the ACKs heard. -/
structure SeqOf (s : BitVec 32) (q : Packet) (T : List Step) (v : BitVec 32) : Prop where
  le : s.toNat ≤ v.toNat
  heard : ∀ t ∈ T, Heard q t → t.inp.tcp.ackSeq.toNat ≤ v.toNat
  attained : v = s ∨ ∃ t ∈ T, Heard q t ∧ t.inp.tcp.ackSeq = v

theorem SeqOf.nil (s : BitVec 32) (q : Packet) : SeqOf s q [] s :=
  ⟨Nat.le_refl _, by simp, .inl rfl⟩

theorem SeqOf.skip (h : SeqOf s q T v) {t : Step} (ht : ¬ Heard q t) :
    SeqOf s q (T ++ [t]) v := by
  refine ⟨h.le, fun t' ht' hh => ?_, h.attained.imp_right fun ⟨t', ht', hh⟩ =>
    ⟨t', List.mem_append_left _ ht', hh⟩⟩
  rcases List.mem_append.1 ht' with ht' | ht'
  · exact h.heard t' ht' hh
  · exact (ht (List.mem_singleton.1 ht' ▸ hh)).elim

/-- The local SEQ after a packet that is not dropped. -/
theorem SeqOf.next (h : SeqOf s q T m.tcpS.seq) (hb : Bound m q) (hre : m.retransmitted p = false) :
    SeqOf s q (T ++ [⟨m, p, m', out⟩]) (m.seqAfter p) := by
  by_cases hof : m.ofStream p = true
  · have hv := seqAfter_toNat (.inr hof)
    have hh : Heard q ⟨m, p, m', out⟩ := ⟨hre, hb.ofStream.1 hof⟩
    refine ⟨by have := h.le; omega, fun t ht hh' => ?_, ?_⟩
    · rcases List.mem_append.1 ht with ht | ht
      · have := h.heard t ht hh'
        omega
      · rw [List.mem_singleton.1 ht]
        dsimp only
        omega
    · by_cases hgt : m.tcpS.seq.toNat < p.tcp.ackSeq.toNat
      · exact .inr ⟨_, List.mem_append_right _ (List.mem_singleton_self _), hh,
          BitVec.eq_of_toNat_eq (by dsimp only; omega)⟩
      · have he : m.seqAfter p = m.tcpS.seq := BitVec.eq_of_toNat_eq (by omega)
        rw [he]
        exact h.attained.imp_right fun ⟨t, ht, h'⟩ => ⟨t, List.mem_append_left _ ht, h'⟩
  · rw [Bool.not_eq_true] at hof
    rw [seqAfter_of_not hb.stream_ne hof]
    refine h.skip fun hh => ?_
    rw [hb.ofStream.2 hh.2] at hof
    cases hof

/-! ## A connection -/

/-- Within a connection the responder is bound to its SYN, up to the packet that closes it. -/
theorem conn_bound (hb : Bound m₁ q) (h : Run c.step m₁ T m)
    (hin : ∀ t ∈ T, t.src.state ≠ .listen) :
    Bound m q ∨ m = start := by
  induction h with
  | nil => exact .inl hb
  | @snoc T m m' p out hT hs ih =>
    rcases ih fun t ht => hin t (List.mem_append_left _ ht) with hb | rfl
    · exact (hb.step (step_moves hs)).imp_right fun h => h.2.2.1
    · exact absurd rfl (hin ⟨start, p, m', out⟩ (by simp))

/-- A packet that is not dropped updates the local SEQ, unless it closes the connection. -/
theorem Moves.seq_eq (hm : Moves c m p m' out) (hre : m.retransmitted p = false)
    (hl : m'.state ≠ .listen) : m'.tcpS.seq = m.seqAfter p := by
  cases hm with
  | dropped hre' => rw [hre] at hre'; cases hre'
  | noted => rw [receive_tcpS]
  | confirmed => rw [receive_tcpS]
  | opened => rfl
  | answered => rfl
  | finished => rfl
  | closed => exact absurd rfl hl

/-- **The local SEQ along a connection.** -/
theorem conn_seqOf (hb : Bound m₁ q) (h : Run c.step m₁ T m)
    (hin : ∀ t ∈ T, t.src.state ≠ .listen) (hs : m.state ≠ .listen) :
    SeqOf m₁.tcpS.seq q T m.tcpS.seq := by
  induction h with
  | nil => exact .nil _ _
  | @snoc T m m' p out hT hst ih =>
    have hin' : ∀ t ∈ T, t.src.state ≠ .listen := fun t ht => hin t (List.mem_append_left _ ht)
    have hl : m.state ≠ .listen := hin ⟨m, p, m', out⟩ (by simp)
    have ih := ih hin' hl
    rcases conn_bound hb hT hin' with hb' | rfl
    · have hm := step_moves hst
      cases hre : m.retransmitted p with
      | true =>
        obtain ⟨rfl, -⟩ := hm.of_retransmitted hre
        rw [fixupAddr_tcpS]
        exact ih.skip fun hh => by simp [Heard, hre] at hh
      | false =>
        rw [hm.seq_eq hre hs]
        exact ih.next hb' hre
    · exact (hl rfl).elim

/-- A packet sent within a connection carries the local SEQ. -/
theorem Bound.sent_seq (hb : Bound m q) (hm : Moves c m p m' out) :
    ∀ b ∈ sent out, b.tcp.seq = m.seqAfter p ∧ m.retransmitted p = false := by
  intro b hbs
  cases hm with
  | opened _ hst => exact (hb.state hst).elim
  | answered hre =>
    simp only [sent_append, sent_ask, sent_send, List.nil_append, List.mem_singleton] at hbs
    rw [hbs]
    exact ⟨rfl, hre⟩
  | finished hre =>
    rw [sent_send, List.mem_singleton] at hbs
    rw [hbs]
    exact ⟨rfl, hre⟩
  | _ => cases hbs

theorem Moves.sent_le (hm : Moves c m p m' out) : (sent out).length ≤ 1 := by
  cases hm <;> simp

/-! ## Order of the ranges -/

theorem inOrder_append {ps qs : List Packet} (hq : qs.length ≤ 1) :
    InOrder (ps ++ qs) ↔ InOrder ps ∧ ∀ a ∈ ps, ∀ b ∈ qs,
      a.HasData → (b.HasData ∨ b.tcp.flags = TCP.FIN ||| TCP.ACK) →
        a.dataEnd ≤ b.tcp.seq.toNat := by
  rw [InOrder, List.pairwise_append]
  have : qs.Pairwise fun a b =>
      a.HasData → (b.HasData ∨ b.tcp.flags = TCP.FIN ||| TCP.ACK) →
        a.dataEnd ≤ b.tcp.seq.toNat := by
    match qs, hq with
    | [], _ => exact .nil
    | [b], _ => exact List.pairwise_singleton _ b
  exact ⟨fun h => ⟨h.1, h.2.2⟩, fun h => ⟨h.1, this, h.2⟩⟩

theorem inOrder_cons {a : Packet} {ps : List Packet} (ha : ¬ a.HasData) :
    InOrder (a :: ps) ↔ InOrder ps := by
  rw [InOrder, List.pairwise_cons]
  exact and_iff_right fun b _ hd => (ha hd).elim

/-- All packets of a connection are sent from the SYN|ACK's sequence number on. -/
theorem conn_sent_ge (hb : Bound m₁ q) (h : Run c.step m₁ T m)
    (hin : ∀ t ∈ T, t.src.state ≠ .listen) :
    ∀ a ∈ sent (outputs T), m₁.tcpS.seq.toNat ≤ a.tcp.seq.toNat := by
  intro a ha
  obtain ⟨t, ht, hat⟩ := mem_outputs.1 (mem_sent.1 ha)
  obtain ⟨T₁, T₂, rfl, h₁, hs, -⟩ := h.mem ht
  have hin' : ∀ t ∈ T₁, t.src.state ≠ .listen := fun t ht => hin t (by simp [ht])
  have hl := hin t ht
  have hseq := conn_seqOf hb h₁ hin' hl
  rcases conn_bound hb h₁ hin' with hb' | he
  · obtain ⟨hv, hre⟩ := hb'.sent_seq (step_moves hs) a (mem_sent.2 hat)
    have hn : SeqOf _ q (T₁ ++ [⟨t.src, t.inp, t.dst, t.out⟩]) _ := hseq.next hb' hre
    rw [hv]
    exact hn.le
  · exact (hl (by rw [he]; rfl)).elim

/-- One step: the data sent before ends at or below what the step sends exactly when the client
has acknowledged it. -/
theorem ackedBefore_iff (hb : Bound m q) (hseq : SeqOf s q T m.tcpS.seq)
    (hge : ∀ a ∈ sent (outputs T), s.toNat ≤ a.tcp.seq.toNat) (hm : Moves c m p m' out) :
    (∀ a ∈ sent (outputs T), ∀ b ∈ sent out,
      a.HasData → (b.HasData ∨ b.tcp.flags = TCP.FIN ||| TCP.ACK) →
        a.dataEnd ≤ b.tcp.seq.toNat) ↔
      AckedBefore q T ⟨m, p, m', out⟩ := by
  have hv : ∀ b ∈ sent out, SeqOf s q (T ++ [⟨m, p, m', out⟩]) b.tcp.seq := by
    intro b hbs
    obtain ⟨he, hre⟩ := hb.sent_seq hm b hbs
    rw [he]
    exact hseq.next hb hre
  constructor
  · intro h b hbs hbd a ha had
    have hle := h a ha b hbs had hbd
    rcases (hv b hbs).attained with he | ⟨t, ht, hh, he⟩
    · -- a range ends after `s`
      have hlen : 0 < a.tcp.payload.length := List.length_pos_iff.2 had
      have := hge a ha
      rw [he, Packet.dataEnd] at hle
      omega
    · exact ⟨t, ht, hh, by rw [he]; exact hle⟩
  · intro h a ha b hbs had hbd
    obtain ⟨t, ht, hh, hle⟩ := h b hbs hbd a ha had
    exact hle.trans ((hv b hbs).heard t ht hh)

theorem Listening.step_syn (h : Listening m) (hq : q.tcp.flags = TCP.SYN)
    (hs : c.step m q = .ok (m₁, out)) :
    m₁ = m.opened c q ∧ Bound m₁ q ∧ Addressed m₁ q ∧
      out = m.send c ⟨m₁.ipS, m₁.tcpS⟩ "sendSynAck" := by
  obtain ⟨rfl, rfl⟩ := (step_moves hs).unique (h.opens hq)
  rcases h.step (h.opens hq) with ⟨hL, -⟩ | ⟨-, -, hb, ha, ho⟩
  · exact absurd hL.state (by simp [Machine.opened])
  · exact ⟨rfl, hb, ha, rfl⟩

/-- **The ranges of a connection are in order exactly when the client acknowledges all data before
the responder sends more.** -/
theorem inOrder_iff (c : Config) {m₀ m₁ m : Machine} {q : Packet} {o₁ : List Effect}
    {T : List Step} (h₀ : c.Reachable m₀) (hl : m₀.state = .listen)
    (hq : q.tcp.flags = TCP.SYN) (hs : c.step m₀ q = .ok (m₁, o₁)) (h : Run c.step m₁ T m)
    (hin : ∀ t ∈ T, t.src.state ≠ .listen) :
    InOrder (sent (o₁ ++ outputs T)) ↔ Always (AckedBefore q) T := by
  obtain ⟨rfl, hb, -, rfl⟩ := (h₀.listening hl).step_syn hq hs
  rw [sent_append, sent_send, List.singleton_append,
    inOrder_cons (by simp [Packet.HasData, (h₀.listening hl).payload, Machine.opened])]
  induction h with
  | nil => exact iff_of_true .nil always_nil
  | @snoc T m m' p out hT hst ih =>
    have hin' : ∀ t ∈ T, t.src.state ≠ .listen := fun t ht => hin t (by simp [ht])
    have hlm : m.state ≠ .listen := hin ⟨m, p, m', out⟩ (by simp)
    have hm := step_moves hst
    rcases conn_bound hb hT hin' with hb' | rfl
    · rw [outputs_append, sent_append, outputs_cons, outputs_nil, List.append_nil,
        inOrder_append hm.sent_le, always_snoc, ih hin',
        ackedBefore_iff hb' (conn_seqOf hb hT hin' hlm) (conn_sent_ge hb hT hin') hm]
    · exact (hlm rfl).elim

/-! ## A client that pipelines -/

instance : DecidablePred Packet.HasData := fun p => inferInstanceAs (Decidable (p.tcp.payload ≠ []))

instance (ps : List Packet) : Decidable (InOrder ps) := inferInstanceAs (Decidable (ps.Pairwise _))

def helloSyn : Packet := (sampleClient 40000).seg TCP.SYN 1000 0 []

/-- Two requests, the second before the first response is acknowledged. -/
def pipelined : List Packet :=
  [(sampleClient 40000).seg TCP.ACK 1001 31332 [],
    (sampleClient 40000).seg (TCP.PSH ||| TCP.ACK) 1001 31332 [71, 49],
    (sampleClient 40000).seg (TCP.PSH ||| TCP.ACK) 1003 31332 [71, 50]]

def pipelinedRun : List Step :=
  (exec echo.step (start.opened echo helloSyn) pipelined).toOption.getD []

theorem pipelined_run :
    Run echo.step (start.opened echo helloSyn) pipelinedRun
      (final (start.opened echo helloSyn) pipelinedRun) := by
  have he : exec echo.step (start.opened echo helloSyn) pipelined = .ok pipelinedRun := rfl
  exact (Run.of_exec he).1

theorem inOrder_iff_pipelined :
    InOrder (sent (outputs pipelinedRun)) ↔ Always (AckedBefore helloSyn) pipelinedRun := by
  have h := inOrder_iff echo (.refl _) rfl (q := helloSyn) rfl rfl pipelined_run (by decide)
  rwa [sent_append, sent_send, List.singleton_append, inOrder_cons (by decide)] at h

/-- The highest sequence number a segment takes up, plus one. -/
def Packet.seqEnd (p : Packet) : Nat :=
  p.dataEnd + if p.tcp.flags &&& (TCP.SYN ||| TCP.FIN) = 0 then 0 else 1

def sentEnd (ps : List Packet) : Nat := ps.foldl (fun n p => max n p.seqEnd) 0

/-- **The ranges of a connection can overlap**, although the client never acknowledges more than was
sent and the sequence numbers do not wrap. -/
theorem pipelined_overlap :
    ¬ ∀ (c : Config) (m₀ m₁ m : Machine) (q : Packet) (o₁ : List Effect) (T : List Step),
      c.Reachable m₀ → m₀.state = .listen → q.tcp.flags = TCP.SYN →
      c.step m₀ q = .ok (m₁, o₁) → Run c.step m₁ T m → (∀ t ∈ T, t.src.state ≠ .listen) →
      Always (fun T₁ t => t.inp.tcp.sport = q.tcp.sport →
        t.inp.tcp.ackSeq.toNat ≤ sentEnd (sent (o₁ ++ outputs T₁))) T →
      m₁.tcpS.seq.toNat + 2 + ((sent (outputs T)).map (·.tcp.payload.length)).sum < 2 ^ 32 →
      InOrder (sent (o₁ ++ outputs T)) := by
  intro h
  have := h echo start _ _ helloSyn _ pipelinedRun (.refl _) rfl rfl rfl pipelined_run (by decide)
    (.of_take (by decide)) (by decide)
  exact absurd this (by decide)

end Integratio
