import Integratio.Responder.Proof.Rested

/-!
# Free means listening

`streamId` is written outside the machine, before a SYN is raised, and inside it, by the entry of
`LISTEN`. `stages` lists the machines one `processPacket` passes through, so that both writes show.

* `stages_getLast`: the last stage is the machine after the packet.
* `stages_changes`: along the stages the stream changes at most once.
* `free_iff_listening`: after every packet the responder has no stream exactly when it is in
  `LISTEN`, and else the stream and the reply's port are those of the SYN it answered last.
-/

namespace Integratio

open Transducer Machine

/-! ## The stages of a packet -/

namespace Machine

/-- The machines `process_event` passes through: after the exit hook, the action, the entry hook
and the change of the current state. -/
def eventStages (c : Config) (m : Machine) (e : Event) (p : Packet) : List Machine :=
  match row? m.state e with
  | none => []
  | some r =>
    let m₁ := onExit r.start m
    match m₁.act c p r.action with
    | .error _ => [m₁]
    | .ok (m₂, _) => [m₁, m₂, onEntry r.next m₂, { onEntry r.next m₂ with state := r.next }]

/-- The machines `processPacket` passes through: before it, after each of its updates, and those of
the event. -/
def stages (c : Config) (m : Machine) (p : Packet) : List Machine :=
  let m₁ := m.fixupAddr p
  if m₁.retransmitted p then [m, m₁]
  else
    let m₂ := m₁.updateSeq p
    let m₃ := m₂.record c p
    let m₄ := m₃.updateAck p
    let m₅ := m₄.bindStream p
    [m, m₁, m₂, m₃, m₄, m₅] ++
      match eventOf p.tcp.flags with
      | none => []
      | some e => m₅.eventStages c e p

end Machine

/-- How often two adjacent values differ. -/
def changes {α : Type*} [DecidableEq α] : List α → Nat
  | a :: b :: l => (if a = b then 0 else 1) + changes (b :: l)
  | _ => 0

variable {c : Config} {m m' : Machine} {p q : Packet} {out : List Effect} {T : List Step}

/-- The last stage of an event without an error; without a row there is none. -/
theorem eventStages_getLast {e : Event} (h : m.processEvent c e p = .ok (m', out)) :
    (m.eventStages c e p).getLast?.or (some m) = some m' := by
  unfold processEvent at h
  unfold eventStages
  cases hrow : row? m.state e with
  | none =>
    rw [hrow] at h
    cases h
    rfl
  | some r =>
    rw [hrow] at h
    dsimp only at h ⊢
    cases hact : (onExit r.start m).act c p r.action with
    | error _ =>
      rw [hact] at h
      cases h
    | ok x =>
      obtain ⟨m₂, o⟩ := x
      rw [hact] at h
      cases h
      rfl

/-- **The last stage is the machine after the packet.** -/
theorem stages_getLast (h : c.step m p = .ok (m', out)) :
    (m.stages c p).getLast? = some m' := by
  rw [step_eq, ← retransmitted_fixupAddr] at h
  unfold stages
  dsimp only
  split at h
  · rename_i hre
    cases h
    rw [if_pos hre]
    rfl
  · rename_i hre
    rw [if_neg hre, List.getLast?_append]
    cases hev : eventOf p.tcp.flags with
    | none =>
      rw [hev] at h
      cases h
      rfl
    | some e =>
      rw [hev] at h
      exact eventStages_getLast h

/-! ## The stream along the stages -/

theorem onExit_streamId (s : State) (m : Machine) : (onExit s m).streamId = m.streamId := by
  cases s <;> rfl

theorem onEntry_streamId (s : State) (m : Machine) :
    (onEntry s m).streamId = if s = .listen then -1 else m.streamId := by
  cases s <;> rfl

theorem act_streamId {a : Option Action} (h : m.act c p a = .ok (m', out)) :
    m'.streamId = m.streamId := by
  cases a with
  | none =>
    cases h
    rfl
  | some a =>
    cases a with
    | sendSynAck =>
      cases h
      rfl
    | sendFinAck =>
      cases h
      rfl
    | sendData =>
      simp only [act, sendData] at h
      split at h
      · cases h
      · cases h
        rfl

/-- Only an ACK enters `LISTEN`. -/
theorem row?_listen {s : State} {e : Event} {r : Row} (h : row? s e = some r)
    (hn : r.next = .listen) : e = .ack := by
  obtain ⟨hmem, -, rfl⟩ := row?_cases h
  have htab : ∀ r ∈ transitionTable, r.next = .listen → r.event = .ack := by decide
  exact htab r hmem hn

/-- During an event the stream is kept, unless `LISTEN` is entered. -/
theorem eventStages_streams (c : Config) (m : Machine) (e : Event) (p : Packet) :
    (∃ n, (m.eventStages c e p).map (·.streamId) = List.replicate n m.streamId) ∨
      (e = .ack ∧
        (m.eventStages c e p).map (·.streamId) = List.replicate 2 m.streamId ++ [-1, -1]) := by
  unfold eventStages
  cases hrow : row? m.state e with
  | none => exact .inl ⟨0, rfl⟩
  | some r =>
    dsimp only
    cases hact : (onExit r.start m).act c p r.action with
    | error _ => exact .inl ⟨1, by simp [onExit_streamId]⟩
    | ok x =>
      have hx := act_streamId hact
      rw [onExit_streamId] at hx
      by_cases hn : r.next = .listen
      · exact .inr ⟨row?_listen hrow hn, by simp [onExit_streamId, onEntry_streamId, hx, hn]⟩
      · exact .inl ⟨4, by simp [onExit_streamId, onEntry_streamId, hx, hn]⟩

theorem changes_replicate (n : Nat) (i : Int) : changes (List.replicate n i) = 0 := by
  induction n with
  | zero => rfl
  | succ n ih =>
    cases n with
    | zero => rfl
    | succ n => simpa [List.replicate_succ, changes] using ih

theorem changes_replicate_append (n k : Nat) (i j : Int) :
    changes (List.replicate n i ++ List.replicate k j) ≤ 1 := by
  induction n with
  | zero => simp [changes_replicate]
  | succ n ih =>
    cases n with
    | zero =>
      cases k with
      | zero => simp [changes]
      | succ k =>
        have := changes_replicate (k + 1) j
        simp only [List.replicate_succ, List.replicate_zero, List.cons_append, List.nil_append,
          changes] at this ⊢
        split <;> omega
    | succ n => simpa [List.replicate_succ, changes] using ih

/-- The stages before the event: the stream changes with the last of them. -/
theorem received_streams (c : Config) (m : Machine) (p : Packet) :
    [m, m.fixupAddr p, (m.fixupAddr p).updateSeq p, ((m.fixupAddr p).updateSeq p).record c p,
        (((m.fixupAddr p).updateSeq p).record c p).updateAck p, m.receive c p].map (·.streamId) =
      List.replicate 5 m.streamId ++ [m.streamAfter p] := by
  simp [updateSeq_eq, updateAck_eq, record]

theorem stages_eq (c : Config) (m : Machine) (p : Packet) :
    m.stages c p =
      if m.retransmitted p then [m, m.fixupAddr p]
      else
        [m, m.fixupAddr p, (m.fixupAddr p).updateSeq p, ((m.fixupAddr p).updateSeq p).record c p,
          (((m.fixupAddr p).updateSeq p).record c p).updateAck p, m.receive c p] ++
          match eventOf p.tcp.flags with
          | none => []
          | some e => (m.receive c p).eventStages c e p := by
  rw [← retransmitted_fixupAddr]
  rfl

/-- **Along the stages of a packet the stream changes at most once.** -/
theorem stages_changes (c : Config) (m : Machine) (p : Packet) :
    changes ((m.stages c p).map (·.streamId)) ≤ 1 := by
  rw [stages_eq]
  split
  · simp [changes]
  · rw [List.map_append, received_streams, List.append_assoc]
    cases hev : eventOf p.tcp.flags with
    | none => exact changes_replicate_append 5 1 _ _
    | some e =>
      have hs := eventStages_streams c (m.receive c p) e p
      rw [receive_streamId] at hs
      rcases hs with ⟨n, hn⟩ | ⟨rfl, hn⟩
      · dsimp only
        rw [hn, List.singleton_append, ← List.replicate_succ]
        exact changes_replicate_append 5 (n + 1) _ _
      · -- an ACK does not bind the stream
        have hst : m.streamAfter p = m.streamId := by
          have hne : p.tcp.flags ≠ TCP.SYN := by
            rw [eventOf_eq.1 hev]
            decide
          simp [streamAfter, hne]
        dsimp only
        rw [hn, hst]
        exact changes_replicate_append 8 2 _ _

/-! ## Runs -/

/-- **Free means listening**: after every packet the stream is `-1` exactly in `LISTEN`; outside of
it the stream and the reply's port are the source port of the SYN that was answered last, and stay
so until the return to `LISTEN`; and one packet changes the stream at most once, on the way to the
machine after it. -/
theorem free_iff_listening (h : Run c.step start T m) :
    (m.streamId = -1 ↔ m.state = .listen) ∧
      (m.state ≠ .listen → ∃ q, opener T = some q ∧ q.tcp.flags = TCP.SYN ∧
        m.streamId = q.tcp.sport.toNat ∧ m.tcpS.dport = q.tcp.sport) ∧
      ∀ t ∈ T,
        (t.src.state ≠ .listen → t.dst.state ≠ .listen →
          t.dst.streamId = t.src.streamId ∧ t.dst.tcpS.dport = t.src.tcpS.dport) ∧
        (t.src.stages c t.inp).getLast? = some t.dst ∧
        changes ((t.src.stages c t.inp).map (·.streamId)) ≤ 1 := by
  refine ⟨?_, fun hs => ?_, fun t ht => ⟨fun hsrc hdst => ?_, stages_getLast (h.step_mem ht),
    stages_changes c t.src t.inp⟩⟩
  · rcases run_phase h with hl | ⟨q, -, -, hb⟩
    · exact iff_of_true hl.stream hl.state
    · exact iff_of_false hb.stream_ne hb.state
  · rcases run_phase h with hl | ⟨q, ho, hq, hb⟩
    · exact absurd hl.state hs
    · exact ⟨q, ho, hq, hb.stream, hb.dport⟩
  · obtain ⟨T₁, T₂, rfl, h₁, hst, -⟩ := h.mem ht
    rcases run_phase h₁ with hl | ⟨q, -, -, hb⟩
    · exact absurd hl.state hsrc
    · rcases hb.step (step_moves hst) with hb' | ⟨-, -, he, -⟩
      · exact ⟨hb'.stream.trans hb.stream.symm, hb'.dport.trans hb.dport.symm⟩
      · rw [he] at hdst
        exact absurd rfl hdst

theorem free_iff_listening_handshake :
    ∃ q, opener handshakeRun = some q ∧ q.tcp.flags = TCP.SYN ∧
      (final start handshakeRun).streamId = q.tcp.sport.toNat ∧
      (final start handshakeRun).tcpS.dport = q.tcp.sport :=
  (free_iff_listening handshake_run).2.1 State.noConfusion

end Integratio
