import Integratio.Responder.Client
import Integratio.Responder.Proof.Steps

/-!
# Configured delays

`delays_exact`: a packet is sent after exactly the delays configured for its action and the state
that its transition leaves, in their order (`Delayed`), no other step sleeps, and without its time
configurations the responder makes the same run (`awake` removes the sleeps from the effects).
`send` looks the state up in `stateNames` by its MSM id, in the middle of the transition: the names
of the two states that an action leaves are right there (`pstate_of_action`); the name at the id of
`CLOSE_WAIT` is another one, but no action leaves it.
-/

namespace Integratio

open Transducer Machine

/-- The delays among the effects. -/
def sleeps (es : List Effect) : List Int := es.filterMap fun | .sleep d => some d | _ => none

/-- The effects without the delays. -/
def awake (es : List Effect) : List Effect := es.filter fun | .sleep _ => false | _ => true

/-- The name of a state in a time configuration. -/
def State.name : State → String
  | .listen => "LISTEN"
  | .synRcvd => "SYN_RCVD"
  | .established => "ESTABLISHED"
  | .closeWait => "CLOSE_WAIT"

/-- The name of an action in a time configuration. -/
def Action.name : Action → String
  | .sendSynAck => "sendSynAck"
  | .sendData => "sendData"
  | .sendFinAck => "sendFinAck"

/-- The delays configured for an action that leaves `s`. -/
def Config.delays (c : Config) (s : State) (a : Action) : List Int :=
  (c.timeTests.filter fun t => t.action = a.name ∧ t.state = s.name).map (·.delay)

/-- The same responder without time configurations. -/
def Config.undelayed (c : Config) : Config := { c with timeTests := [] }

/-- What a step sleeps (module doc). -/
inductive Delayed (c : Config) (t : Step) : Prop
  | quiet : sent t.out = [] → sleeps t.out = [] → Delayed c t
  | sends (r : Row) (a : Action) (asked : List Effect) (b : Packet) :
      r ∈ transitionTable → r.action = some a → t.src.state = r.start →
      eventOf t.inp.tcp.flags = some r.event → t.dst.state = r.next →
      sent asked = [] → sleeps asked = [] →
      t.out = asked ++ (c.delays r.start a).map .sleep ++ [.send b] → Delayed c t

variable {c : Config} {m m' : Machine} {p : Packet} {out : List Effect} {T : List Step}

/-! ## Effects -/

@[simp] theorem awake_append (es fs : List Effect) : awake (es ++ fs) = awake es ++ awake fs :=
  List.filter_append ..

@[simp] theorem awake_ask (b : Bool) (r : Bytes) :
    awake (if b = true then [.getResponse r] else []) =
      if b = true then [.getResponse r] else [] := by
  cases b <;> rfl

theorem awake_sleeps (l : List TimeConf) : awake (l.map (.sleep ·.delay)) = [] := by
  simp only [awake, List.filter_eq_nil_iff, List.mem_map]
  rintro _ ⟨t, -, rfl⟩
  simp

@[simp] theorem awake_send (c : Config) (m : Machine) (pkt : Packet) (a : String) :
    awake (m.send c pkt a) = m.send c.undelayed pkt a := by
  rw [Machine.send, awake_append, awake_sleeps]
  rfl

@[simp] theorem sleeps_ask (b : Bool) (r : Bytes) :
    sleeps (if b = true then [.getResponse r] else []) = [] := by
  cases b <;> rfl

/-- The states that an action leaves have their names at their ids. -/
theorem pstate_of_action {r : Row} (hr : r ∈ transitionTable) (ha : r.action ≠ none)
    (hm : m.state = r.start) : m.pstate = r.start.name := by
  simp only [transitionTable, List.mem_cons, List.not_mem_nil, or_false] at hr
  rw [pstate, hm]
  rcases hr with rfl | rfl | rfl | rfl | rfl
  · rfl
  · exact absurd rfl ha
  · rfl
  · rfl
  · exact absurd rfl ha

theorem send_of_action {r : Row} {a : Action} (hr : r ∈ transitionTable) (ha : r.action = some a)
    (hm : m.state = r.start) (pkt : Packet) :
    m.send c pkt a.name = (c.delays r.start a).map .sleep ++ [.send pkt] := by
  have hn := pstate_of_action hr (by simp [ha]) hm
  simp only [Machine.send, hn, Config.delays, List.map_map, Function.comp_def, eq_comm]

/-! ## Runs -/

theorem Moves.delayed (hm : Moves c m p m' out) : Delayed c ⟨m, p, m', out⟩ := by
  cases hm with
  | dropped => exact .quiet rfl rfl
  | noted => exact .quiet rfl rfl
  | opened _ hst hfl =>
    have hr : (⟨.listen, .syn, .synRcvd, some .sendSynAck⟩ : Row) ∈ transitionTable := by decide
    refine .sends _ .sendSynAck [] ⟨(m.opened c p).ipS, (m.opened c p).tcpS⟩ hr rfl hst
      (eventOf_eq.2 hfl) rfl rfl rfl ?_
    rw [List.nil_append]
    exact send_of_action hr rfl hst _
  | confirmed => exact .quiet rfl rfl
  | answered _ hst hfl =>
    have hr : (⟨.established, .pshAck, .established, some .sendData⟩ : Row) ∈ transitionTable := by
      decide
    refine .sends _ .sendData (if c.httz.isSome then [.getResponse p.tcp.payload] else [])
      ⟨(m.fixupAddr p).ipS, { m.dataTcp p with payload := respond c p.tcp.payload }⟩ hr rfl hst
      (eventOf_eq.2 hfl) ?_ (sent_ask ..) (sleeps_ask ..) ?_
    · simp [hst]
    · rw [List.append_assoc, ← send_of_action hr rfl hst]
      rfl
  | finished _ hst hfl =>
    have hr : (⟨.established, .finAck, .closeWait, some .sendFinAck⟩ : Row) ∈ transitionTable := by
      decide
    refine .sends _ .sendFinAck [] ⟨(m.fixupAddr p).ipS, m.finTcp p⟩ hr rfl hst
      (eventOf_eq.2 hfl) rfl rfl rfl ?_
    rw [List.nil_append]
    exact send_of_action hr rfl hst _
  | closed => exact .quiet rfl rfl

theorem Moves.undelayed (hm : Moves c m p m' out) : Moves c.undelayed m p m' (awake out) := by
  cases hm with
  | dropped hre => exact .dropped hre
  | noted hre hrow => exact .noted hre hrow
  | opened hre hst hfl =>
    rw [awake_send]
    exact .opened hre hst hfl
  | confirmed hre hst hfl => exact .confirmed hre hst hfl
  | answered hre hst hfl hp =>
    rw [awake_append, awake_ask, awake_send]
    exact .answered hre hst hfl hp
  | finished hre hst hfl =>
    rw [awake_send]
    exact .finished hre hst hfl
  | closed hre hst hfl => exact .closed hre hst hfl

/-- The delays before a packet, which its flags tell. -/
def Config.delaysFor (c : Config) (f : BitVec 12) : List Int :=
  if f = TCP.SYN ||| TCP.ACK then c.delays .listen .sendSynAck
  else if f = TCP.FIN ||| TCP.ACK then c.delays .established .sendFinAck
  else c.delays .established .sendData

@[simp] theorem sleeps_append (es fs : List Effect) : sleeps (es ++ fs) = sleeps es ++ sleeps fs :=
  List.filterMap_append ..

theorem sleeps_of_action {r : Row} {a : Action} (hr : r ∈ transitionTable) (ha : r.action = some a)
    (hm : m.state = r.start) (pkt : Packet) :
    sleeps (m.send c pkt a.name) = c.delays r.start a := by
  rw [send_of_action hr ha hm, sleeps_append]
  simp [sleeps, List.filterMap_map]

theorem Moves.sleeps_sent (hm : Moves c m p m' out) :
    sleeps out = (sent out).flatMap fun b => c.delaysFor b.tcp.flags := by
  have hack : c.delaysFor TCP.ACK = c.delays .established .sendData := by
    rw [Config.delaysFor, if_neg (by decide), if_neg (by decide)]
  have hfin : c.delaysFor (TCP.FIN ||| TCP.ACK) = c.delays .established .sendFinAck := by
    rw [Config.delaysFor, if_neg (by decide), if_pos rfl]
  cases hm with
  | dropped | noted | confirmed | closed => rfl
  | opened _ hst =>
    rw [sent_send, List.flatMap_singleton]
    exact sleeps_of_action (r := ⟨.listen, .syn, .synRcvd, some .sendSynAck⟩) (by decide) rfl hst _
  | answered _ hst =>
    rw [sleeps_append, sleeps_ask, sent_append, sent_ask, sent_send, List.nil_append,
      List.nil_append, List.flatMap_singleton]
    exact (sleeps_of_action (r := ⟨.established, .pshAck, .established, some .sendData⟩)
      (by decide) rfl hst _).trans hack.symm
  | finished _ hst =>
    rw [sent_send, List.flatMap_singleton]
    exact (sleeps_of_action (r := ⟨.established, .finAck, .closeWait, some .sendFinAck⟩)
      (by decide) rfl hst _).trans hfin.symm

/-- **What a run sleeps** is told by the packets that it sends. -/
theorem run_sleeps (h : Run c.step m T m') :
    sleeps (outputs T) = (sent (outputs T)).flatMap fun b => c.delaysFor b.tcp.flags := by
  induction h with
  | nil => rfl
  | snoc _ hs ih =>
    simp only [outputs_append, outputs_cons, outputs_nil, List.append_nil, sleeps_append,
      sent_append, List.flatMap_append, ih, (step_moves hs).sleeps_sent]

/-- **Delays are applied exactly, and change nothing else.** -/
theorem delays_exact (h : Run c.step start T m) :
    (∀ t ∈ T, Delayed c t) ∧ Run c.undelayed.step start (T.map (·.mapOut awake)) m :=
  ⟨fun _ ht => (step_moves (h.step_mem ht)).delayed,
    h.map_out awake fun _ _ _ _ hs => (step_moves hs).undelayed.step⟩

/-- Two delays for the SYN|ACK, one for the data of a state that sends none. -/
def delayed : Config :=
  { timeTests := [⟨"LISTEN", "sendSynAck", 1⟩, ⟨"SYN_RCVD", "sendData", 5⟩,
      ⟨"LISTEN", "sendSynAck", 2⟩] }

theorem delays_exact_handshake :
    ∃ T, inputs T = handshake ∧ (∀ t ∈ T, Delayed delayed t) ∧
      outputs T = [.sleep 1, .sleep 2,
        .send ((sampleClient 40000).reply (TCP.SYN ||| TCP.ACK) 31331 1001 [])] ∧
      Run delayed.undelayed.step start (T.map (·.mapOut awake)) (final start T) := by
  have he : exec delayed.step start handshake =
    .ok ((exec delayed.step start handshake).toOption.getD []) := rfl
  obtain ⟨hr, hi⟩ := Run.of_exec he
  exact ⟨_, hi, (delays_exact hr).1, by decide, (delays_exact hr).2⟩

end Integratio
