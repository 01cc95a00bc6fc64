import Integratio.Responder.Proof.Serves

/-!
# The acknowledgement of a byte stream

A client that opened a connection with sequence number `x` delivers a byte stream in PSH|ACK
segments, with bare ACKs in between and earlier segments again (`Sender`, `Delivery`). `deliver`
runs the responder next to the count of the distinct bytes. The responder adds up payload lengths
and compares a segment with the one before it only, so its acknowledgements are exact exactly as
long as a data segment is delivered again only right after itself (`Prompt`, `ack_exact_iff`).
`late_duplicate` is a request that comes again after a bare ACK.
-/

namespace Integratio

open Transducer Machine

/-! ## The client -/

/-- A piece of the byte stream. -/
structure Piece where
  bytes : Bytes
  nonempty : bytes ≠ []
  fits : bytes.length < 2 ^ 32
  deriving DecidableEq, Repr

inductive Delivery
  /-- The next piece of the stream. -/
  | data (piece : Piece) (ack : BitVec 32)
  | bare (seq ack : BitVec 32)
  /-- The `i`-th segment again. -/
  | again (i : Nat)
  deriving DecidableEq, Repr

/-- The segments delivered so far, the distinct bytes among them, and whether the handshake is
done. -/
structure Sender where
  log : List Packet
  stream : Bytes := []
  opened : Bool := false
  deriving DecidableEq, Repr

/-- The segment of a delivery, and the sender after it. -/
def Sender.next (k : Client) (x : BitVec 32) (s : Sender) : Delivery → Option (Packet × Sender)
  | .data b ack =>
    if s.opened then
      let p := k.seg (TCP.PSH ||| TCP.ACK) (x + 1 + BitVec.ofNat 32 s.stream.length) ack b.bytes
      some (p, { s with log := s.log ++ [p], stream := s.stream ++ b.bytes })
    else none
  | .bare seq ack =>
    let p := k.seg TCP.ACK seq ack []
    some (p, { s with log := s.log ++ [p], opened := true })
  | .again i =>
    match s.log[i]? with
    | some p => some (p, { s with log := s.log ++ [p] })
    | none => none

/-- One delivery to the responder. Each packet the responder sends comes with the number of distinct
bytes it has received. The error `none` is a delivery that the sender cannot make. -/
def deliver (c : Config) (k : Client) (x : BitVec 32) (σ : Sender × Machine) (d : Delivery) :
    Except (Option Err) ((Sender × Machine) × List (Nat × Packet)) :=
  match σ.1.next k x d with
  | none => .error none
  | some (p, s) =>
    match c.step σ.2 p with
    | .error e => .error (some e)
    | .ok (m, out) => .ok ((s, m), (sent out).map fun a => (s.stream.length, a))

/-- A data segment is delivered again only if it is the last segment delivered. -/
def Prompt (t : Transition (Sender × Machine) Delivery (Nat × Packet)) : Prop :=
  ∀ i p, t.inp = .again i → t.src.1.log[i]? = some p → p.tcp.payload ≠ [] →
    t.src.1.log.getLast? = some p

/-- The packet acknowledges the first `n` bytes. -/
def Exact (x : BitVec 32) (o : Nat × Packet) : Prop :=
  o.2.tcp.ackSeq = x + 1 + BitVec.ofNat 32 o.1

variable {c : Config} {m m' : Machine} {p q : Packet} {out : List Effect} {k : Client}
  {x : BitVec 32} {s s' : Sender} {o : Bool}

/-! ## The last packet -/

/-- `p` is the last packet the responder looked at. The payload of a segment without one may be
that of an earlier segment. -/
structure Records (m : Machine) (p : Packet) : Prop where
  seq : m.tcpR.seq = p.tcp.seq
  ackSeq : m.tcpR.ackSeq = p.tcp.ackSeq
  flags : m.tcpR.flags = p.tcp.flags
  payload : p.tcp.payload ≠ [] → m.tcpR.payload = p.tcp.payload

theorem Records.receive (h : m'.tcpR = m.tcpR.assign c.keepsInner p.tcp) : Records m' p := by
  refine ⟨by simp [h], by simp [h], by simp [h], fun hp => ?_⟩
  rw [h, TCP.assign_payload _ _ _ hp]

theorem Moves.records (hm : Moves c m p m' out) (hl : m'.state ≠ .listen) : Records m' p := by
  cases hm with
  | dropped hre =>
    obtain ⟨ha, hs, hf, hp⟩ := retransmitted_iff.1 hre
    exact ⟨by simpa, by simpa, by simpa, fun _ => by simp [hp]⟩
  | opened => exact .receive rfl
  | closed => exact absurd rfl hl
  | _ => exact .receive (receive_tcpR ..)

/-- A data segment is taken for a retransmission right after itself. -/
theorem Records.retransmitted (h : Records m p) (hp : p.tcp.payload ≠ []) :
    m.retransmitted p = true :=
  retransmitted_iff.2 ⟨h.ackSeq, h.seq, h.flags, (h.payload hp).symm⟩

/-! ## The segments -/

/-- The segments of the client, before and after the handshake. -/
inductive Segment (k : Client) : Bool → Packet → Prop
  | syn (o : Bool) (seq ack : BitVec 32) : Segment k o (k.seg TCP.SYN seq ack [])
  | bare (seq ack : BitVec 32) : Segment k true (k.seg TCP.ACK seq ack [])
  | data (seq ack : BitVec 32) (b : Piece) :
      Segment k true (k.seg (TCP.PSH ||| TCP.ACK) seq ack b.bytes)

theorem Segment.opened (h : Segment k o p) : Segment k true p := by
  cases h with
  | syn => exact .syn true _ _
  | bare => exact .bare _ _
  | data => exact .data _ _ _

theorem Segment.shape (h : Segment k o p) :
    (∃ sq a, p = k.seg TCP.SYN sq a []) ∨ o = true ∧
      ((∃ sq a, p = k.seg TCP.ACK sq a []) ∨
        ∃ (sq a : BitVec 32) (b : Piece), p = k.seg (TCP.PSH ||| TCP.ACK) sq a b.bytes) := by
  cases h with
  | syn _ sq a => exact .inl ⟨sq, a, rfl⟩
  | bare sq a => exact .inr ⟨rfl, .inl ⟨sq, a, rfl⟩⟩
  | data sq a b => exact .inr ⟨rfl, .inr ⟨sq, a, b, rfl⟩⟩

theorem Segment.payload_ne (h : Segment k o p) (hf : p.tcp.flags = TCP.PSH ||| TCP.ACK) :
    ∃ b : Piece, p = k.seg (TCP.PSH ||| TCP.ACK) p.tcp.seq p.tcp.ackSeq b.bytes := by
  cases h with
  | syn => exact absurd hf (show TCP.SYN ≠ TCP.PSH ||| TCP.ACK by decide)
  | bare => exact absurd hf (show TCP.ACK ≠ TCP.PSH ||| TCP.ACK by decide)
  | data _ _ b => exact ⟨b, rfl⟩

/-! ## The invariant -/

/-- The responder follows the sender. -/
structure Follows (k : Client) (x : BitVec 32) (s : Sender) (m : Machine) : Prop where
  serves : Serves m k
  state : m.state = if s.opened then .established else .synRcvd
  ack : m.tcpS.ackSeq = x + 1 + BitVec.ofNat 32 s.stream.length
  log : ∀ p ∈ s.log, Segment k s.opened p
  last : ∃ p, s.log.getLast? = some p ∧ Records m p ∧
    (p.tcp.payload ≠ [] → p.tcp.seq + BitVec.ofNat 32 p.tcp.payload.length =
      x + 1 + BitVec.ofNat 32 s.stream.length)

theorem Follows.not_listen (h : Follows k x s m) : m.state ≠ .listen := by
  rw [h.state]
  cases s.opened <;> simp

/-! ## One delivery -/

/-- A segment without data: the acknowledgement stays, and the first ACK ends the handshake. -/
theorem Follows.plain (h : Follows k x s m) {f : BitVec 12} {sq a : BitVec 32}
    (hf : f = TCP.SYN ∨ f = TCP.ACK) (hm : Moves c m (k.seg f sq a []) m' out) :
    sent out = [] ∧ m'.tcpS.ackSeq = m.tcpS.ackSeq ∧
      m'.state = if s.opened ∨ f = TCP.ACK then .established else .synRcvd := by
  have hack : m.ackAfter (k.seg f sq a []) = m.tcpS.ackSeq := by
    rw [h.serves.ackAfter, List.length_nil, BitVec.add_zero]
  have hst := h.state
  cases hm with
  | dropped hre =>
    refine ⟨rfl, by simp, ?_⟩
    rw [fixupAddr_state, hst]
    cases ho : s.opened with
    | true => simp
    | false =>
      -- an ACK was recorded, so the handshake is done
      have hne : f ≠ TCP.ACK := by
        intro hfa
        obtain ⟨p, hp, hr, -⟩ := h.last
        have hseg := h.log p (List.mem_of_getLast? hp)
        have hfl : p.tcp.flags = f := hr.flags.symm.trans (retransmitted_iff.1 hre).2.2.1
        rw [ho] at hseg
        cases hseg
        exact absurd (hfl.trans hfa) (show TCP.SYN ≠ TCP.ACK by decide)
      simp [hne]
  | noted _ hrow =>
    refine ⟨rfl, by simp [hack], ?_⟩
    rw [receive_state, hst]
    cases ho : s.opened with
    | true => simp
    | false =>
      have hne : f ≠ TCP.ACK := by
        intro hfa
        have := hrow .ack hfa
        rw [hst, ho] at this
        cases this
      simp [hne]
  | opened _ hL => exact (h.not_listen hL).elim
  | confirmed _ _ hfl => exact ⟨rfl, by simp [hack], (if_pos (.inr hfl)).symm⟩
  | answered _ _ _ hp => exact absurd rfl hp
  | finished _ _ hfl =>
    have hfl' : f = TCP.FIN ||| TCP.ACK := hfl
    rcases hf with rfl | rfl
    · exact absurd hfl' (by decide)
    · exact absurd hfl' (by decide)
  | closed _ hcl =>
    rw [hst] at hcl
    split at hcl <;> cases hcl

/-- A data segment that is not dropped is counted and answered. -/
theorem Follows.counted (h : Follows k x s m) (ho : s.opened = true) (b : Piece) {sq a : BitVec 32}
    (hre : m.retransmitted (k.seg (TCP.PSH ||| TCP.ACK) sq a b.bytes) = false)
    (hm : Moves c m (k.seg (TCP.PSH ||| TCP.ACK) sq a b.bytes) m' out) :
    m'.state = .established ∧
      m'.tcpS.ackSeq = m.tcpS.ackSeq + BitVec.ofNat 32 b.bytes.length ∧
      ∃ pkt, sent out = [pkt] ∧ pkt.tcp.ackSeq = m'.tcpS.ackSeq := by
  have hst : m.state = .established := by rw [h.state, if_pos ho]
  obtain ⟨rfl, rfl⟩ := hm.unique (.answered hre hst rfl b.nonempty)
  refine ⟨by simp [hst], h.serves.ackAfter, ?_⟩
  rw [sent_append, sent_ask, sent_send, List.nil_append]
  exact ⟨_, rfl, rfl⟩

/-- The next piece of the stream is not taken for a retransmission. -/
theorem Follows.fresh (h : Follows k x s m) {b : Piece} {a : BitVec 32} :
    m.retransmitted (k.seg (TCP.PSH ||| TCP.ACK) (x + 1 + BitVec.ofNat 32 s.stream.length) a
      b.bytes) = false := by
  rw [Bool.eq_false_iff]
  intro hre
  obtain ⟨-, hsq, hfl, -⟩ := retransmitted_iff.1 hre
  obtain ⟨p, hp, hr, hend⟩ := h.last
  obtain ⟨b', hb'⟩ := (h.log p (List.mem_of_getLast? hp)).payload_ne (hr.flags.symm.trans hfl)
  have hpay : p.tcp.payload = b'.bytes := by rw [hb']; rfl
  have hseq : p.tcp.seq = x + 1 + BitVec.ofNat 32 s.stream.length := hr.seq.symm.trans hsq
  rw [hpay, hseq] at hend
  exact ne_add_ofNat _ (List.length_pos_iff.2 b'.nonempty) b'.fits (hend b'.nonempty).symm

/-- A data segment that is taken for a retransmission is the last segment. -/
theorem Follows.last_of_retransmitted (h : Follows k x s m) {b : Piece} {sq a : BitVec 32}
    (hre : m.retransmitted (k.seg (TCP.PSH ||| TCP.ACK) sq a b.bytes) = true) :
    s.log.getLast? = some (k.seg (TCP.PSH ||| TCP.ACK) sq a b.bytes) := by
  obtain ⟨hak, hsq, hfl, hpl⟩ := retransmitted_iff.1 hre
  obtain ⟨p, hp, hr, -⟩ := h.last
  obtain ⟨b', hb'⟩ := (h.log p (List.mem_of_getLast? hp)).payload_ne (hr.flags.symm.trans hfl)
  have hpay : p.tcp.payload = b'.bytes := by rw [hb']; rfl
  have hbytes : b.bytes = b'.bytes := by
    rw [← hpay, ← hr.payload (by rw [hpay]; exact b'.nonempty)]
    exact hpl
  rw [hp, hb', hr.seq.symm.trans hsq, hr.ackSeq.symm.trans hak, ← hbytes]
  rfl

/-- The invariant after a segment. -/
theorem Follows.snoc {f : BitVec 12} {sq a : BitVec 32} {d : Bytes} (h : Follows k x s m)
    (hm : Moves c m (k.seg f sq a d) m' out) (hl : m'.state ≠ .listen)
    (hs' : s'.log = s.log ++ [k.seg f sq a d]) (ho : s'.opened = true ∨ s'.opened = s.opened)
    (hseg : Segment k s'.opened (k.seg f sq a d))
    (hst : m'.state = if s'.opened then .established else .synRcvd)
    (hack : m'.tcpS.ackSeq = x + 1 + BitVec.ofNat 32 s'.stream.length)
    (hend : d ≠ [] → sq + BitVec.ofNat 32 d.length = x + 1 + BitVec.ofNat 32 s'.stream.length) :
    Follows k x s' m' := by
  refine ⟨h.serves.step hm hl, hst, hack, fun p hp => ?_, _, by simp [hs'], hm.records hl, hend⟩
  rw [hs'] at hp
  rcases List.mem_append.1 hp with hp | hp
  · rcases ho with ho | ho
    · rw [ho]
      exact (h.log p hp).opened
    · rw [ho]
      exact h.log p hp
  · rw [List.mem_singleton.1 hp]
    exact hseg

/-! ## Deliveries -/

theorem deliver_ok {d : Delivery} {w : List (Nat × Packet)}
    (h : deliver c k x (s, m) d = .ok ((s', m'), w)) :
    ∃ p out, s.next k x d = some (p, s') ∧ Moves c m p m' out ∧
      w = (sent out).map fun a => (s'.stream.length, a) := by
  unfold deliver at h
  split at h
  · cases h
  · rename_i p s₁ hn
    split at h
    · cases h
    · rename_i m₁ out hs
      cases h
      exact ⟨p, out, hn, step_moves hs, rfl⟩

theorem Follows.data (h : Follows k x s m) {b : Piece} {a : BitVec 32}
    (hn : s.next k x (.data b a) = some (p, s')) (hm : Moves c m p m' out) :
    Follows k x s' m' ∧ ∀ pkt ∈ sent out, Exact x (s'.stream.length, pkt) := by
  simp only [Sender.next] at hn
  split at hn
  · rename_i ho
    cases hn
    obtain ⟨hst, hack, pkt, hout, hpkt⟩ := h.counted ho b h.fresh hm
    rw [h.ack, add_ofNat_add, ← List.length_append] at hack
    refine ⟨h.snoc hm (by simp [hst]) rfl (.inr rfl) (ho ▸ .data _ _ b) (by simp [hst, ho]) hack
      fun _ => by rw [add_ofNat_add, List.length_append], ?_⟩
    simp [hout, Exact, hpkt, hack]
  · cases hn

theorem Follows.bare (h : Follows k x s m) {sq a : BitVec 32}
    (hn : s.next k x (.bare sq a) = some (p, s')) (hm : Moves c m p m' out) :
    Follows k x s' m' ∧ ∀ pkt ∈ sent out, Exact x (s'.stream.length, pkt) := by
  simp only [Sender.next] at hn
  cases hn
  obtain ⟨hout, hack, hst⟩ := h.plain (.inr rfl) hm
  rw [if_pos (.inr rfl)] at hst
  refine ⟨h.snoc hm (by simp [hst]) rfl (.inl rfl) (.bare sq a) hst (by rw [hack, h.ack])
    fun hne => absurd rfl hne, ?_⟩
  simp [hout]

theorem Follows.again (h : Follows k x s m) {i : Nat} (hi : s.log[i]? = some p)
    (hm : Moves c m p m' out) (hp : p.tcp.payload ≠ [] → s.log.getLast? = some p) :
    Follows k x { s with log := s.log ++ [p] } m' ∧ sent out = [] := by
  have hseg := h.log p (List.mem_of_getElem? hi)
  rcases hseg.shape with ⟨sq, a, rfl⟩ | ⟨ho, ⟨sq, a, rfl⟩ | ⟨sq, a, b, rfl⟩⟩
  · obtain ⟨hout, hack, hst⟩ := h.plain (.inl rfl) hm
    have hne : TCP.SYN ≠ TCP.ACK := by decide
    simp only [hne, or_false] at hst
    refine ⟨h.snoc hm ?_ rfl (.inr rfl) hseg hst (by rw [hack, h.ack]) fun hne => absurd rfl hne,
      hout⟩
    rw [hst]
    split <;> simp
  · obtain ⟨hout, hack, hst⟩ := h.plain (.inr rfl) hm
    rw [if_pos (.inr rfl)] at hst
    exact ⟨h.snoc hm (by simp [hst]) rfl (.inr rfl) hseg (by rw [hst, if_pos ho])
      (by rw [hack, h.ack]) fun hne => absurd rfl hne, hout⟩
  · obtain ⟨q, hq, hr, hend⟩ := h.last
    obtain rfl := Option.some.inj (hq.symm.trans (hp b.nonempty))
    obtain ⟨rfl, rfl⟩ := hm.of_retransmitted (hr.retransmitted b.nonempty)
    exact ⟨h.snoc hm (by simpa using h.not_listen) rfl (.inr rfl) hseg
      (by rw [fixupAddr_state, h.state]) (by rw [fixupAddr_tcpS, h.ack]) hend, rfl⟩

/-- A prompt delivery keeps the responder exact. -/
theorem Follows.prompt {d : Delivery} {w : List (Nat × Packet)} (h : Follows k x s m)
    (hd : deliver c k x (s, m) d = .ok ((s', m'), w)) (hp : Prompt ⟨(s, m), d, (s', m'), w⟩) :
    Follows k x s' m' ∧ ∀ o ∈ w, Exact x o := by
  obtain ⟨p, out, hn, hm, rfl⟩ := deliver_ok hd
  rw [List.forall_mem_map]
  cases d with
  | data b a => exact h.data hn hm
  | bare sq a => exact h.bare hn hm
  | again i =>
    simp only [Sender.next] at hn
    split at hn
    · rename_i p' hi
      cases hn
      obtain ⟨h', hout⟩ := h.again hi hm (hp i p rfl hi)
      exact ⟨h', by simp [hout]⟩
    · cases hn

/-- A late delivery of a data segment is counted again. -/
theorem Follows.late {d : Delivery} {w : List (Nat × Packet)} (h : Follows k x s m)
    (hd : deliver c k x (s, m) d = .ok ((s', m'), w)) (hp : ¬ Prompt ⟨(s, m), d, (s', m'), w⟩) :
    ∃ o ∈ w, ¬ Exact x o := by
  obtain ⟨p, out, hn, hm, rfl⟩ := deliver_ok hd
  simp only [Prompt, not_forall] at hp
  obtain ⟨i, p', rfl, hi, hpay, hlast⟩ := hp
  simp only [Sender.next, hi] at hn
  cases hn
  rcases (h.log p (List.mem_of_getElem? hi)).shape with
    ⟨sq, a, rfl⟩ | ⟨ho, ⟨sq, a, rfl⟩ | ⟨sq, a, b, rfl⟩⟩
  · exact absurd rfl hpay
  · exact absurd rfl hpay
  · have hre := Bool.eq_false_iff.2 fun hre => hlast (h.last_of_retransmitted hre)
    obtain ⟨-, hack, pkt, hout, hpkt⟩ := h.counted ho b hre hm
    refine ⟨(s.stream.length, pkt), by simp [hout], ?_⟩
    rw [Exact, hpkt, hack, h.ack]
    exact (ne_add_ofNat _ (List.length_pos_iff.2 b.nonempty) b.fits).symm

/-! ## Runs -/

theorem Listening.follows (h : Listening m) (k : Client) (x a : BitVec 32)
    (hs : c.step m (k.seg TCP.SYN x a []) = .ok (m', out)) :
    Follows k x { log := [k.seg TCP.SYN x a []] } m' ∧
      ∀ p ∈ sent out, p.tcp.ackSeq = x + 1 := by
  obtain ⟨m₁, o₁, s₁, hm, ho, hsv, hst, -, hack, -⟩ := h.syn (c := c) k x a
  have he := hs.symm.trans hm.step
  cases he
  refine ⟨⟨hsv, by simp [hst], by simp [hack], ?_, _, rfl, hm.records (by simp [hst]),
    fun hne => absurd rfl hne⟩, ?_⟩
  · intro p hp
    rw [List.mem_singleton.1 hp]
    exact .syn _ x a
  · rw [ho]
    simp [Client.reply]

/-- **The acknowledgements are exact exactly as long as data segments are delivered again only right
after themselves**: in every run of the client's deliveries after its SYN. -/
theorem ack_exact_iff (c : Config) {m₀ m₁ m : Machine} {o₁ : List Effect} (h₀ : c.Reachable m₀)
    (hl : m₀.state = .listen) (k : Client) (x a : BitVec 32)
    (hs : c.step m₀ (k.seg TCP.SYN x a []) = .ok (m₁, o₁)) {s : Sender}
    {T : List (Transition (Sender × Machine) Delivery (Nat × Packet))}
    (h : Run (deliver c k x) ({ log := [k.seg TCP.SYN x a []] }, m₁) T (s, m)) :
    (∀ p ∈ (sent o₁).map ((0, ·)) ++ outputs T, Exact x p) ↔ ∀ t ∈ T, Prompt t := by
  obtain ⟨hf, hsyn⟩ := (h₀.listening hl).follows k x a hs
  have hiff := h.outputs_iff (fun σ => Follows k x σ.1 σ.2) Prompt (Exact x)
    (fun _ hI hd hp => Follows.prompt hI hd hp) (fun _ hI hd hp => Follows.late hI hd hp) hf
  rw [← hiff, List.forall_mem_append]
  refine and_iff_right fun p hp => ?_
  obtain ⟨q, hq, rfl⟩ := List.mem_map.1 hp
  simp [Exact, hsyn q hq]

/-! ## A late duplicate -/

instance (o : Nat × Packet) : Decidable (Exact x o) := inferInstanceAs (Decidable (_ = _))

def streamSyn : Packet := (sampleClient 40000).seg TCP.SYN 1000 0 []

/-- A request that is delivered again after the bare ACK for its response. -/
def lateDeliveries : List Delivery :=
  [.bare 1001 31332, .data ⟨[71, 69, 84], by decide, by decide⟩ 31332, .bare 1004 31335, .again 2]

def lateRun : List (Transition (Sender × Machine) Delivery (Nat × Packet)) :=
  (exec (deliver echo (sampleClient 40000) 1000)
    ({ log := [streamSyn] }, start.opened echo streamSyn) lateDeliveries).toOption.getD []

theorem late_run :
    Run (deliver echo (sampleClient 40000) 1000)
      ({ log := [streamSyn] }, start.opened echo streamSyn) lateRun
      (final ({ log := [streamSyn] }, start.opened echo streamSyn) lateRun) := by
  have he : exec (deliver echo (sampleClient 40000) 1000)
    ({ log := [streamSyn] }, start.opened echo streamSyn) lateDeliveries = .ok lateRun := rfl
  exact (Run.of_exec he).1

theorem ack_exact_iff_late :
    (∀ p ∈ (sent (start.send echo ⟨(start.opened echo streamSyn).ipS,
        (start.opened echo streamSyn).tcpS⟩ "sendSynAck")).map ((0, ·)) ++ outputs lateRun,
      Exact 1000 p) ↔ ∀ t ∈ lateRun, Prompt t :=
  ack_exact_iff echo (.refl _) rfl (sampleClient 40000) 1000 0 rfl late_run

/-- **A late duplicate is counted twice.** -/
theorem late_duplicate :
    ¬ ∀ (c : Config) (m₀ m₁ m : Machine) (o₁ : List Effect) (k : Client) (x a : BitVec 32)
        (s : Sender) (T : List (Transition (Sender × Machine) Delivery (Nat × Packet))),
      c.Reachable m₀ → m₀.state = .listen → c.step m₀ (k.seg TCP.SYN x a []) = .ok (m₁, o₁) →
      Run (deliver c k x) ({ log := [k.seg TCP.SYN x a []] }, m₁) T (s, m) →
      ∀ p ∈ (sent o₁).map ((0, ·)) ++ outputs T, Exact x p := by
  intro h
  have hall := h echo start _ _ _ (sampleClient 40000) 1000 0 _ lateRun (.refl _) rfl rfl late_run
  have hout := (List.forall_mem_append.1 hall).2
  exact absurd hout (by decide)

end Integratio
