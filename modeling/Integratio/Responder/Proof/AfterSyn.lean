import Integratio.Responder.Proof.Session

/-!
# A session after its SYN

`Listening.afterSyn`: the run of a responder over a client's session, from the answered SYN on. It
ends as a new responder, and not before the session's last packet: a responder that had returned to
`LISTEN` earlier would still remember the packets it has noted since (`Listening.notes`).
-/

namespace Integratio

open Transducer Machine

namespace Client

variable (k : Client) (c : Config) (sc : Script) (s : BitVec 32)

/-- The packets of a session after the copies of its SYN. -/
def confirmed : List Packet :=
  let x := sc.isn + 1 + BitVec.ofNat 32 (requestBytes sc.rounds)
  let y := s + 1 + BitVec.ofNat 32 (responseBytes c sc.rounds)
  List.replicate (sc.ackRepeats + 1) (k.seg TCP.ACK (sc.isn + 1) (s + 1) []) ++
    k.rounds c (sc.isn + 1) (s + 1) sc.rounds ++
    (List.replicate (sc.finRepeats + 1) (k.seg (TCP.FIN ||| TCP.ACK) x y []) ++
      [k.seg TCP.ACK (x + 1) (y + 1) []])

/-- The packets of a session after its first SYN. -/
def afterSyn : List Packet :=
  List.replicate sc.synRepeats (k.seg TCP.SYN sc.isn sc.ackOfSyn []) ++ k.confirmed c sc s

theorem session_eq :
    k.session c sc s = k.seg TCP.SYN sc.isn sc.ackOfSyn [] :: k.afterSyn c sc s := by
  simp [session, afterSyn, confirmed, List.replicate_succ]

variable {k c sc s}

theorem mem_rounds {p : Packet} {x : BitVec 32} {rs : List Round} (hp : p ∈ k.rounds c x s rs) :
    p.tcp.flags = TCP.ACK ∨
      p.tcp.flags = TCP.PSH ||| TCP.ACK ∧ ∃ r ∈ rs, p.tcp.payload = r.request := by
  induction rs generalizing x s with
  | nil => cases hp
  | cons r rs ih =>
    rw [rounds, round, List.mem_append, List.mem_append] at hp
    rcases hp with (hp | hp) | hp
    · rw [List.eq_of_mem_replicate hp]
      exact .inr ⟨rfl, r, .head rs, rfl⟩
    · rw [List.eq_of_mem_replicate hp]
      exact .inl rfl
    · rcases ih hp with hfl | ⟨hfl, r', hr', hpay⟩
      · exact .inl hfl
      · exact .inr ⟨hfl, r', .tail r hr', hpay⟩

/-- After its SYN a session has segments with an ACK only, and requests in the PSH|ACKs. -/
theorem mem_confirmed {p : Packet} (hp : p ∈ k.confirmed c sc s) : ∃ e : Event,
    p.tcp.flags = e.flags ∧ e ≠ .syn ∧
      (e = .pshAck → ∃ r ∈ sc.rounds, p.tcp.payload = r.request) := by
  simp only [confirmed, List.mem_append, List.mem_singleton] at hp
  rcases hp with (hp | hp) | hp | rfl
  · exact ⟨.ack, congrArg (·.tcp.flags) (List.eq_of_mem_replicate hp), by simp⟩
  · rcases mem_rounds hp with hfl | ⟨hfl, hr⟩
    · exact ⟨.ack, hfl, by simp⟩
    · exact ⟨.pshAck, hfl, by simp, fun _ => hr⟩
  · exact ⟨.finAck, congrArg (·.tcp.flags) (List.eq_of_mem_replicate hp), by simp⟩
  · exact ⟨.ack, rfl, by simp⟩

theorem request_of_mem_session {p : Packet} (hp : p ∈ k.session c sc s)
    (hfl : p.tcp.flags = TCP.PSH ||| TCP.ACK) : ∃ r ∈ sc.rounds, p.tcp.payload = r.request := by
  have hsyn : TCP.SYN ≠ TCP.PSH ||| TCP.ACK := by decide
  rw [session_eq, List.mem_cons, afterSyn, List.mem_append] at hp
  rcases hp with rfl | hp | hp
  · exact absurd hfl hsyn
  · rw [List.eq_of_mem_replicate hp] at hfl
    exact absurd hfl hsyn
  · obtain ⟨e, he, -, hreq⟩ := mem_confirmed hp
    exact hreq (Event.flags_inj (he.symm.trans hfl))

end Client

variable {c : Config} {m m' m₁ : Machine} {p : Packet} {out : List Effect} {T : List Step}
  {k : Client} {sc : Script} {s : BitVec 32}

/-! ## What a listening responder remembers -/

/-- Every packet is remembered with its flags, but the one that closes the connection. -/
theorem Moves.notes (hm : Moves c m p m' out) :
    m'.tcpR.flags = p.tcp.flags ∨ m.state = .closeWait ∧ m' = start := by
  cases hm with
  | dropped hre =>
    rw [fixupAddr_tcpR]
    exact .inl (retransmitted_iff.1 hre).2.2.1
  | closed _ hst => exact .inr ⟨hst, rfl⟩
  | noted | confirmed | answered | finished =>
    refine .inl ?_
    rw [receive_tcpR, TCP.assign_flags]
  | opened => exact .inl (TCP.assign_flags ..)

/-- Until a SYN comes a responder goes on listening, and it remembers the flags of the last
packet. -/
theorem Listening.notes (h : Listening m) (hrun : Run c.step m T m')
    (hp : ∀ p ∈ inputs T, p.tcp.flags ≠ TCP.SYN) :
    Listening m' ∧ ∀ p, (inputs T).getLast? = some p → m'.tcpR.flags = p.tcp.flags := by
  induction hrun with
  | nil => exact ⟨h, by simp⟩
  | @snoc T m₁ m₂ p out _ hs ih =>
    simp only [inputs_append, List.forall_mem_append] at hp
    have hl := (ih hp.1).1
    have hne : p.tcp.flags ≠ TCP.SYN := hp.2 p (.head _)
    have hm := step_moves hs
    refine ⟨?_, fun q hq => ?_⟩
    · rcases hl.step hm with ⟨hl', -⟩ | ⟨hsyn, -⟩
      · exact hl'
      · exact absurd hsyn hne
    · obtain rfl : p = q := by simpa using hq
      rcases hm.notes with hfl | ⟨hst, -⟩
      · exact hfl
      · rw [hl.state] at hst
        cases hst

theorem Listening.not_new (h : Listening m) (hrun : Run c.step m T m')
    (hp : ∀ p ∈ inputs T, ∃ e : Event, p.tcp.flags = e.flags ∧ e ≠ .syn) (hT : T ≠ []) :
    m' ≠ start := by
  have hsyn : ∀ p ∈ inputs T, p.tcp.flags ≠ TCP.SYN := by
    intro p hm he
    obtain ⟨e, hfl, hne⟩ := hp p hm
    exact hne (Event.flags_inj (hfl.symm.trans he))
  obtain ⟨-, hlast⟩ := h.notes hrun hsyn
  have hne : inputs T ≠ [] := by simpa [inputs] using hT
  have hfl := hlast _ (List.getLast?_eq_some_getLast hne)
  obtain ⟨e, he, -⟩ := hp _ (List.getLast_mem hne)
  rintro rfl
  rw [he] at hfl
  have hzero : ∀ e : Event, start.tcpR.flags ≠ e.flags := by
    intro e
    cases e <;> decide
  exact hzero e hfl

/-! ## The session -/

theorem mem_of_replicate_append {α : Type*} {l₁ l₂ l : List α} {a b : α} {n : Nat}
    (h : l₁ ++ a :: l₂ = List.replicate n b ++ l) (ha : a ≠ b) : ∀ x ∈ l₂, x ∈ l := by
  intro x hx
  rcases List.append_eq_append_iff.1 h with ⟨as, hrep, heq⟩ | ⟨bs, -, rfl⟩
  · cases as with
    | nil =>
      obtain rfl : a :: l₂ = l := heq
      exact .tail a hx
    | cons a' as =>
      obtain rfl : a = a' := (List.cons.inj heq).1
      have hmem : a ∈ List.replicate n b := by simp [hrep]
      exact absurd (List.eq_of_mem_replicate hmem) ha
  · exact List.mem_append_right bs (.tail a hx)

/-- A return to `LISTEN` is by an ACK, and the responder is as new. -/
theorem Moves.returns (hm : Moves c m p m' out) (hs : m.state ≠ .listen)
    (hs' : m'.state = .listen) :
    p.tcp.flags = TCP.ACK ∧ m' = start := by
  cases hm with
  | closed _ _ hfl => exact ⟨hfl, rfl⟩
  | dropped => exact absurd ((fixupAddr_state ..).symm.trans hs') hs
  | noted | answered => exact absurd ((receive_state ..).symm.trans hs') hs
  | opened | confirmed | finished => cases hs'

/-- **A session after its SYN**: the responder sends the replies of the session and is as new after
its last packet, not before. -/
theorem Listening.afterSyn (h : Listening m)
    (hs : c.step m (k.seg TCP.SYN sc.isn sc.ackOfSyn []) = .ok (m₁, out))
    (hr : ∀ r ∈ sc.rounds, r.request ≠ [] ∧ r.request.length < 2 ^ 32)
    (hlt : m₁.tcpS.seq.toNat + 2 + responseBytes c sc.rounds < 2 ^ 32) :
    ∃ T, Run c.step m₁ T start ∧ inputs T = k.afterSyn c sc m₁.tcpS.seq ∧
      sent (outputs T) = (k.replies c sc m₁.tcpS.seq).tail ∧
      ∀ T₁ t T₂, T = T₁ ++ t :: T₂ → t.src.state ≠ .listen → t.dst.state = .listen → T₂ = [] := by
  obtain ⟨m₁', o₁, s, hm₁, -, hsv, hst, hf, hack, rfl⟩ := h.syn (c := c) k sc.isn sc.ackOfSyn
  cases hs.symm.trans hm₁.step
  have hs₁ : (m₁.tcpS.seq + 1).toNat = m₁.tcpS.seq.toNat + 1 := add_ofNat_toNat 1 (by omega)
  -- the repeated SYN
  have hsyn : Reads c.step m₁ (List.replicate sc.synRepeats (k.seg TCP.SYN sc.isn sc.ackOfSyn []))
      [] m₁ := by
    rcases hm₁.again with hag | ⟨hcl, -⟩
    · cases sc.synRepeats with
      | zero => exact .nil m₁
      | succ n => exact .replicate hag.step hag.step n
    · rw [h.state] at hcl
      cases hcl
  obtain ⟨m₂, hm₂, h₂⟩ := hsv.handshake (c := c) (s := m₁.tcpS.seq + 1) hst hf hack (by omega)
  have hacks := hm₂.reads_replicate (by simp [hst]) sc.ackRepeats
  obtain ⟨m₃, o₃, hT₃, ho₃, h₃⟩ := h₂.rounds hr (c := c) (by omega)
  obtain ⟨o₄, hT₄, ho₄⟩ := h₃.close (c := c)
    (sc.isn + 1 + BitVec.ofNat 32 (requestBytes sc.rounds) + 1)
    (m₁.tcpS.seq + 1 + BitVec.ofNat 32 (responseBytes c sc.rounds) + 1) sc.finRepeats
  obtain ⟨T, hT, hi, ho⟩ := hsyn.append ((hacks.append hT₃).append hT₄)
  refine ⟨T, hT, hi, ?_, ?_⟩
  · have hx : sc.isn + 1 + BitVec.ofNat 32 (requestBytes sc.rounds) + 1 =
        sc.isn + 2 + BitVec.ofNat 32 (requestBytes sc.rounds) := by grind
    simp only [ho, sent_append, ho₃, ho₄, hx, List.nil_append, Client.replies,
      List.cons_append, List.tail_cons]
  · rintro T₁ t T₂ rfl hsrc hdst
    obtain ⟨-, hstep, htail⟩ := hT.split_cons
    obtain ⟨hfl, he⟩ := (step_moves hstep).returns hsrc hdst
    rw [he] at htail
    have hne : t.inp ≠ k.seg TCP.SYN sc.isn sc.ackOfSyn [] := by
      intro heq
      rw [heq] at hfl
      exact absurd hfl (show TCP.SYN ≠ TCP.ACK by decide)
    rw [inputs_append, inputs_cons] at hi
    by_contra hT₂
    -- what is left of the session has no SYN
    refine start_listening.not_new htail (fun p hp => ?_) hT₂ rfl
    obtain ⟨e, hfl, he, -⟩ := Client.mem_confirmed (mem_of_replicate_append hi hne p hp)
    exact ⟨e, hfl, he⟩

end Integratio
