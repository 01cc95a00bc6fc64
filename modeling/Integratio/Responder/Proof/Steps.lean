import Integratio.Responder.Process

/-!
# What one packet can do to a responder

`Moves c m p m' out` lists the seven things `processPacket` does with a TCP/IP packet: drop it as
a retransmission, note it without a transition, or take one row of the transition table.
`step_iff` says that these are exactly the successful steps of `Config.step`; the invariants of
the responder are proved from it by cases, and nothing else unfolds `processPacket`. The fields
after `receive` (everything before the event) are the `receive_*` lemmas.
-/

namespace Integratio

open Machine

/-! ## Flags and events -/

/-- The flags that raise an event. -/
def Event.flags : Event → BitVec 12
  | .syn => TCP.SYN
  | .ack => TCP.ACK
  | .pshAck => TCP.PSH ||| TCP.ACK
  | .finAck => TCP.FIN ||| TCP.ACK

theorem eventOf_flags (e : Event) : eventOf e.flags = some e := by cases e <;> decide

theorem eventOf_eq {f : BitVec 12} {e : Event} : eventOf f = some e ↔ f = e.flags := by
  refine ⟨fun h => ?_, fun h => h ▸ eventOf_flags e⟩
  unfold eventOf at h
  repeat' split at h
  all_goals cases h
  all_goals assumption

theorem Event.flags_inj {e e' : Event} (h : e.flags = e'.flags) : e = e' := by
  have := eventOf_flags e
  rw [h, eventOf_flags] at this
  exact (Option.some.inj this).symm

theorem row?_cases {s : State} {e : Event} {r : Row} (h : row? s e = some r) :
    r ∈ transitionTable ∧ r.start = s ∧ r.event = e := by
  have hp := List.find?_some h
  simp only [decide_eq_true_eq] at hp
  exact ⟨List.mem_of_find?_eq_some h, hp⟩

/-! ## Before the event -/

namespace Machine

variable (c : Config) (m : Machine) (p : Packet)

@[simp] theorem fixupAddr_state : (m.fixupAddr p).state = m.state := by
  unfold fixupAddr; split <;> rfl
@[simp] theorem fixupAddr_tcpR : (m.fixupAddr p).tcpR = m.tcpR := by
  unfold fixupAddr; split <;> rfl
@[simp] theorem fixupAddr_ipR : (m.fixupAddr p).ipR = m.ipR := by
  unfold fixupAddr; split <;> rfl
@[simp] theorem fixupAddr_tcpS : (m.fixupAddr p).tcpS = m.tcpS := by
  unfold fixupAddr; split <;> rfl
@[simp] theorem fixupAddr_streamId : (m.fixupAddr p).streamId = m.streamId := by
  unfold fixupAddr; split <;> rfl

@[simp] theorem retransmitted_fixupAddr :
    (m.fixupAddr p).retransmitted p = m.retransmitted p := by simp [retransmitted]

/-- The sequence number of the reply after a packet: the larger of its own and the packet's ACK,
unless the machine is bound to another stream. -/
def seqAfter : BitVec 32 :=
  if p.tcp.ackSeq > m.tcpS.seq ∧ (m.streamId = -1 ∨ m.ofStream p) then p.tcp.ackSeq
  else m.tcpS.seq

/-- The acknowledgement number after the payload of a packet of the stream is counted. -/
def ackAfter : BitVec 32 :=
  if p.tcp.payload.length > 0 ∧ m.ofStream p then
    m.tcpS.ackSeq + BitVec.ofNat 32 p.tcp.payload.length
  else m.tcpS.ackSeq

/-- The stream after a packet. -/
def streamAfter : Int :=
  if p.tcp.flags = TCP.SYN ∧ m.streamId = -1 then p.tcp.sport.toNat else m.streamId

theorem updateSeq_eq :
    m.updateSeq p = { m with tcpS := { m.tcpS with seq := m.seqAfter p } } := by
  unfold updateSeq seqAfter
  by_cases hgt : p.tcp.ackSeq > m.tcpS.seq
  · by_cases hid : m.streamId = -1
    · simp [hgt, hid]
    · by_cases hof : m.ofStream p = true <;> simp [hgt, hid, hof]
  · simp [hgt]

theorem updateAck_eq :
    m.updateAck p = { m with tcpS := { m.tcpS with ackSeq := m.ackAfter p } } := by
  unfold updateAck ackAfter
  split <;> rfl

theorem bindStream_eq : m.bindStream p = { m with streamId := m.streamAfter p } := by
  unfold bindStream streamAfter
  split <;> rfl

/-- **Everything before the event, field by field.** -/
theorem receive_eq :
    m.receive c p =
      { state := m.state
        ipR := p.ip
        tcpR := m.tcpR.assign c.keepsInner p.tcp
        ipS := (m.fixupAddr p).ipS
        tcpS := { m.tcpS with seq := m.seqAfter p, ackSeq := m.ackAfter p }
        streamId := m.streamAfter p } := by
  simp only [receive, updateSeq_eq, updateAck_eq, bindStream_eq, record]
  simp [seqAfter, ackAfter, streamAfter, ofStream]

@[simp] theorem receive_state : (m.receive c p).state = m.state := by rw [receive_eq]
@[simp] theorem receive_ipR : (m.receive c p).ipR = p.ip := by rw [receive_eq]
@[simp] theorem receive_tcpR : (m.receive c p).tcpR = m.tcpR.assign c.keepsInner p.tcp := by
  rw [receive_eq]
@[simp] theorem receive_ipS : (m.receive c p).ipS = (m.fixupAddr p).ipS := by rw [receive_eq]
@[simp] theorem receive_tcpS :
    (m.receive c p).tcpS = { m.tcpS with seq := m.seqAfter p, ackSeq := m.ackAfter p } := by
  rw [receive_eq]
@[simp] theorem receive_streamId : (m.receive c p).streamId = m.streamAfter p := by
  rw [receive_eq]

end Machine

/-! ## The steps -/

/-- The machine after an answered SYN. -/
def Machine.opened (c : Config) (m : Machine) (p : Packet) : Machine :=
  { state := .synRcvd
    ipR := p.ip
    tcpR := m.tcpR.assign c.keepsInner p.tcp
    ipS := { srcAddr := p.ip.dstAddr, dstAddr := p.ip.srcAddr }
    tcpS :=
      { m.tcpS with
        sport := p.tcp.dport, dport := p.tcp.sport, seq := m.seqAfter p
        ackSeq := p.tcp.seq + 1, flags := TCP.SYN ||| TCP.ACK }
    streamId := m.streamAfter p }

/-- The reply template of an answered FIN. -/
def Machine.finTcp (m : Machine) (p : Packet) : TCP :=
  { m.tcpS with
    seq := m.seqAfter p, ackSeq := p.tcp.seq + 1, flags := TCP.FIN ||| TCP.ACK }

/-- The reply template of an answered request, without the response. -/
def Machine.dataTcp (m : Machine) (p : Packet) : TCP :=
  { m.tcpS with seq := m.seqAfter p, ackSeq := m.ackAfter p, flags := TCP.ACK }

/-- What one packet does (module doc). -/
inductive Moves (c : Config) (m : Machine) (p : Packet) : Machine → List Effect → Prop
  /-- Taken for a retransmission. -/
  | dropped : m.retransmitted p = true → Moves c m p (m.fixupAddr p) []
  /-- No row for the state and the packet's flags. -/
  | noted : m.retransmitted p = false → (∀ e, p.tcp.flags = e.flags → row? m.state e = none) →
      Moves c m p (m.receive c p) []
  | opened : m.retransmitted p = false → m.state = .listen → p.tcp.flags = TCP.SYN →
      Moves c m p (m.opened c p)
        (m.send c ⟨(m.opened c p).ipS, (m.opened c p).tcpS⟩ "sendSynAck")
  | confirmed : m.retransmitted p = false → m.state = .synRcvd → p.tcp.flags = TCP.ACK →
      Moves c m p { m.receive c p with state := .established } []
  | answered : m.retransmitted p = false → m.state = .established →
      p.tcp.flags = TCP.PSH ||| TCP.ACK → p.tcp.payload ≠ [] →
      Moves c m p { m.receive c p with tcpS := m.dataTcp p }
        ((if c.httz.isSome then [.getResponse p.tcp.payload] else []) ++
          m.send c ⟨(m.fixupAddr p).ipS, { m.dataTcp p with payload := respond c p.tcp.payload }⟩
            "sendData")
  | finished : m.retransmitted p = false → m.state = .established →
      p.tcp.flags = TCP.FIN ||| TCP.ACK →
      Moves c m p { m.receive c p with state := .closeWait, tcpS := m.finTcp p }
        (m.send c ⟨(m.fixupAddr p).ipS, m.finTcp p⟩ "sendFinAck")
  /-- The return to `LISTEN`. -/
  | closed : m.retransmitted p = false → m.state = .closeWait → p.tcp.flags = TCP.ACK →
      Moves c m p start []

variable {c : Config} {m m' : Machine} {p : Packet} {out : List Effect}

theorem retransmitted_iff : m.retransmitted p = true ↔ m.tcpR.ackSeq = p.tcp.ackSeq ∧
    m.tcpR.seq = p.tcp.seq ∧ m.tcpR.flags = p.tcp.flags ∧ p.tcp.payload = m.tcpR.payload := by
  simp [retransmitted]

theorem retransmitted_of_flags (h : m.tcpR.flags ≠ p.tcp.flags) : m.retransmitted p = false := by
  simp [retransmitted, h]

theorem retransmitted_of_seq (h : m.tcpR.seq ≠ p.tcp.seq) : m.retransmitted p = false := by
  simp [retransmitted, h]

theorem step_eq (c : Config) (m : Machine) (p : Packet) :
    c.step m p =
      if m.retransmitted p then .ok (m.fixupAddr p, [])
      else
        match eventOf p.tcp.flags with
        | none => .ok (m.receive c p, [])
        | some e => (m.receive c p).processEvent c e p := by
  show (if (m.fixupAddr p).retransmitted p then Except.ok (m.fixupAddr p, [])
    else
      match eventOf p.tcp.flags with
      | none => .ok (m.receive c p, [])
      | some e => (m.receive c p).processEvent c e p) = _
  rw [retransmitted_fixupAddr]

/-- `send` looks at the machine's state only. -/
theorem send_congr {pkt : Packet} {a : String} (h : m.state = m'.state) :
    m.send c pkt a = m'.send c pkt a := by
  have hp : m.pstate = m'.pstate := by simp only [pstate, h]
  simp only [send, hp]

theorem processEvent_none {e : Event} (h : row? m.state e = none) :
    (m.receive c p).processEvent c e p = .ok (m.receive c p, []) := by
  simp only [processEvent, receive_state, h]

theorem processEvent_syn (h : m.state = .listen) :
    (m.receive c p).processEvent c .syn p = .ok (m.opened c p,
      m.send c ⟨(m.opened c p).ipS, (m.opened c p).tcpS⟩ "sendSynAck") := by
  have hrow : row? .listen .syn = some ⟨.listen, .syn, .synRcvd, some .sendSynAck⟩ := rfl
  simp only [processEvent, receive_eq, h, hrow, onExit, act, sendSynAck, onEntry,
    TCP.assign_seq, TCP.assign_sport, TCP.assign_dport]
  rw [send_congr (show _ = m.state from h.symm)]
  rfl

theorem processEvent_ack (h : m.state = .synRcvd) :
    (m.receive c p).processEvent c .ack p =
      .ok ({ m.receive c p with state := .established }, []) := by
  rw [receive_eq]; cases m; cases h; rfl

theorem processEvent_pshAck (h : m.state = .established) (hp : p.tcp.payload ≠ []) :
    (m.receive c p).processEvent c .pshAck p = .ok ({ m.receive c p with tcpS := m.dataTcp p },
      (if c.httz.isSome then [.getResponse p.tcp.payload] else []) ++
        m.send c ⟨(m.fixupAddr p).ipS, { m.dataTcp p with payload := respond c p.tcp.payload }⟩
          "sendData") := by
  rw [receive_eq]
  have hrow : row? .established .pshAck =
    some ⟨.established, .pshAck, .established, some .sendData⟩ := rfl
  simp only [processEvent, h, hrow, onExit, act, sendData, hp, if_false, onEntry]
  rw [send_congr (show _ = m.state from h.symm)]
  rfl

theorem processEvent_pshAck_error (h : m.state = .established) (hp : p.tcp.payload = []) :
    (m.receive c p).processEvent c .pshAck p = .error .pduNotFound := by
  have hrow : row? .established .pshAck =
    some ⟨.established, .pshAck, .established, some .sendData⟩ := rfl
  simp only [processEvent, receive_state, h, hrow, act, sendData, hp, if_true]

theorem processEvent_finAck (h : m.state = .established) :
    (m.receive c p).processEvent c .finAck p =
      .ok ({ m.receive c p with state := .closeWait, tcpS := m.finTcp p },
        m.send c ⟨(m.fixupAddr p).ipS, m.finTcp p⟩ "sendFinAck") := by
  have hrow : row? .established .finAck =
    some ⟨.established, .finAck, .closeWait, some .sendFinAck⟩ := rfl
  simp only [processEvent, receive_eq, h, hrow, onExit, act, sendFinAck, onEntry, TCP.assign_seq]
  rw [send_congr (show _ = m.state from h.symm)]
  rfl

theorem processEvent_ack_close (h : m.state = .closeWait) :
    (m.receive c p).processEvent c .ack p = .ok (start, []) := by
  rw [receive_eq]; cases m; cases h; rfl

/-- **Every successful step is one of the moves.** -/
theorem step_moves (h : c.step m p = .ok (m', out)) : Moves c m p m' out := by
  rw [step_eq] at h
  cases hre : m.retransmitted p with
  | true =>
    simp only [hre, if_true] at h
    cases h
    exact .dropped hre
  | false =>
    simp only [hre, Bool.false_eq_true, if_false] at h
    cases hev : eventOf p.tcp.flags with
    | none =>
      simp only [hev] at h
      cases h
      refine .noted hre fun e he => ?_
      rw [he, eventOf_flags] at hev
      cases hev
    | some e =>
      simp only [hev] at h
      have hfl := eventOf_eq.1 hev
      cases hrow : row? m.state e with
      | none =>
        rw [processEvent_none hrow] at h
        cases h
        refine .noted hre fun e' he => ?_
        rw [Event.flags_inj (he.symm.trans hfl), hrow]
      | some r =>
        obtain ⟨hmem, hst, he⟩ := row?_cases hrow
        subst he
        simp only [transitionTable, List.mem_cons, List.not_mem_nil, or_false] at hmem
        rcases hmem with rfl | rfl | rfl | rfl | rfl
        · rw [processEvent_syn hst.symm] at h
          cases h
          exact .opened hre hst.symm hfl
        · rw [processEvent_ack hst.symm] at h
          cases h
          exact .confirmed hre hst.symm hfl
        · by_cases hp : p.tcp.payload = []
          · rw [processEvent_pshAck_error hst.symm hp] at h
            cases h
          · rw [processEvent_pshAck hst.symm hp] at h
            cases h
            exact .answered hre hst.symm hfl hp
        · rw [processEvent_finAck hst.symm] at h
          cases h
          exact .finished hre hst.symm hfl
        · rw [processEvent_ack_close hst.symm] at h
          cases h
          exact .closed hre hst.symm hfl

/-- **Every move is a step.** -/
theorem Moves.step (h : Moves c m p m' out) : c.step m p = .ok (m', out) := by
  have hgo : ∀ e : Event, m.retransmitted p = false → p.tcp.flags = e.flags →
      c.step m p = (m.receive c p).processEvent c e p := by
    intro e hre he
    rw [step_eq, he, eventOf_flags, hre]
    rfl
  cases h with
  | dropped hre => rw [step_eq, if_pos hre]
  | noted hre hrow =>
    cases hev : eventOf p.tcp.flags with
    | none => rw [step_eq, hre, hev]; rfl
    | some e =>
      have he := eventOf_eq.1 hev
      rw [hgo e hre he, processEvent_none (hrow e he)]
  | opened hre hst hfl => rw [hgo .syn hre hfl, processEvent_syn hst]
  | confirmed hre hst hfl => rw [hgo .ack hre hfl, processEvent_ack hst]
  | answered hre hst hfl hp => rw [hgo .pshAck hre hfl, processEvent_pshAck hst hp]
  | finished hre hst hfl => rw [hgo .finAck hre hfl, processEvent_finAck hst]
  | closed hre hst hfl => rw [hgo .ack hre hfl, processEvent_ack_close hst]

theorem step_iff : c.step m p = .ok (m', out) ↔ Moves c m p m' out := ⟨step_moves, Moves.step⟩

theorem Moves.unique {m'' : Machine} {out' : List Effect} (h : Moves c m p m' out)
    (h' : Moves c m p m'' out') : m' = m'' ∧ out = out' := by
  have he := h.step.symm.trans h'.step
  cases he
  exact ⟨rfl, rfl⟩

theorem Moves.of_retransmitted (h : Moves c m p m' out) (hre : m.retransmitted p = true) :
    m' = m.fixupAddr p ∧ out = [] :=
  h.unique (.dropped hre)

/-- **The state changes along the rows of the table**; without a row nothing is sent. -/
theorem Moves.row (h : Moves c m p m' out) :
    (m'.state = m.state ∧ out = []) ∨
      ∃ r ∈ transitionTable, r.start = m.state ∧ p.tcp.flags = r.event.flags ∧
        r.next = m'.state := by
  cases h with
  | dropped => exact .inl ⟨fixupAddr_state .., rfl⟩
  | noted => exact .inl ⟨receive_state .., rfl⟩
  | opened _ hst hfl =>
    exact .inr ⟨⟨.listen, .syn, .synRcvd, some .sendSynAck⟩, by decide, hst.symm, hfl, rfl⟩
  | confirmed _ hst hfl =>
    exact .inr ⟨⟨.synRcvd, .ack, .established, none⟩, by decide, hst.symm, hfl, rfl⟩
  | answered _ hst hfl =>
    refine .inr ⟨⟨.established, .pshAck, .established, some .sendData⟩, by decide, hst.symm, hfl,
      ?_⟩
    rw [receive_state, hst]
  | finished _ hst hfl =>
    exact .inr ⟨⟨.established, .finAck, .closeWait, some .sendFinAck⟩, by decide, hst.symm, hfl,
      rfl⟩
  | closed _ hst hfl =>
    exact .inr ⟨⟨.closeWait, .ack, .listen, none⟩, by decide, hst.symm, hfl, rfl⟩

end Integratio
