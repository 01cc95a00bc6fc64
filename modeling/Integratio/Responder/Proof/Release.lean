import Integratio.Responder.Proof.Rested

/-!
# Leading a responder back to `LISTEN`

No sequence of packets wedges a responder: `released`. From every reachable state the packets that
any client at all may send (`Client.releasing`) lead back to `LISTEN`, and no fewer packets do. That
they are never taken for retransmissions is `Rested.fresh`; that there are no shorter ways is the
table: one row makes the way (`State.way`) shorter by one at most.
-/

namespace Integratio

open Transducer Machine

/-- The events that lead back to `LISTEN`. -/
def State.way : State → List Event
  | .listen => []
  | .closeWait => [.ack]
  | .established => [.finAck, .ack]
  | .synRcvd => [.ack, .finAck, .ack]

/-- Bare segments of a client that lead a responder back to `LISTEN`. -/
def Client.releasing (k : Client) (x a : BitVec 32) (s : State) : List Packet :=
  s.way.map fun e => k.seg e.flags x a []

variable {c : Config} {m m' : Machine} {p : Packet} {out : List Effect} {T : List Step} {k : Client}
  {x a : BitVec 32}

/-- One row makes the way shorter by one at most. -/
theorem way_row {r : Row} (h : r ∈ transitionTable) :
    r.start.way.length ≤ r.next.way.length + 1 := by
  have htab : ∀ r ∈ transitionTable, r.start.way.length ≤ r.next.way.length + 1 := by decide
  exact htab r h

theorem run_way (h : Run c.step m T m') :
    m.state.way.length ≤ m'.state.way.length + T.length := by
  induction h with
  | nil => omega
  | snoc _ hs ih =>
    rw [List.length_append, List.length_singleton]
    rcases (step_moves hs).row with ⟨hst, -⟩ | ⟨r, hr, hstart, -, hnext⟩
    · rw [hst]
      omega
    · have hrow := way_row hr
      rw [hstart, hnext] at hrow
      omega

theorem Rested.way_step (h : Rested m) {e : Event} {es : List Event} (hw : m.state.way = e :: es) :
    ∃ m' out, Moves c m (k.seg e.flags x a []) m' out ∧ m'.state.way = es := by
  have hfresh : ∀ e : Event, row? m.state e ≠ none → e ≠ .pshAck →
      m.retransmitted (k.seg e.flags x a []) = false :=
    fun e hrow he => h.fresh (e := e) rfl hrow he
  cases hst : m.state with
  | listen =>
    rw [hst] at hw
    cases hw
  | closeWait =>
    rw [hst] at hw hfresh
    cases hw
    exact ⟨_, _, .closed (hfresh .ack (by decide) (by decide)) hst rfl, rfl⟩
  | established =>
    rw [hst] at hw hfresh
    cases hw
    exact ⟨_, _, .finished (hfresh .finAck (by decide) (by decide)) hst rfl, rfl⟩
  | synRcvd =>
    rw [hst] at hw hfresh
    cases hw
    exact ⟨_, _, .confirmed (hfresh .ack (by decide) (by decide)) hst rfl, rfl⟩

theorem Rested.way_reads (h : Rested m) (es : List Event) (hw : m.state.way = es) :
    ∃ m' o, Reads c.step m (es.map fun e => k.seg e.flags x a []) o m' ∧ m'.state.way = [] := by
  induction es generalizing m with
  | nil => exact ⟨m, [], .nil m, hw⟩
  | cons e es ih =>
    obtain ⟨m₁, out, hm, hw₁⟩ := h.way_step (c := c) (k := k) (x := x) (a := a) hw
    obtain ⟨m', o, hr, hw'⟩ := ih (h.step hm) hw₁
    exact ⟨m', out ++ o, (Reads.single hm.step).append hr, hw'⟩

/-- **A responder can always be led back to `LISTEN`**, by any client, and in no shorter way. -/
theorem released (h : c.Reachable m) (k : Client) (x a : BitVec 32) :
    (∃ T m', Run c.step m T m' ∧ inputs T = k.releasing x a m.state ∧ m'.state = .listen) ∧
      ∀ T m', Run c.step m T m' → m'.state = .listen →
        (k.releasing x a m.state).length ≤ T.length := by
  refine ⟨?_, fun T m' hT hl => ?_⟩
  · obtain ⟨m', o, ⟨T, hT, hi, -⟩, hw⟩ :=
      h.rested.way_reads (c := c) (k := k) (x := x) (a := a) _ rfl
    refine ⟨T, m', hT, hi, ?_⟩
    cases hst : m'.state with
    | listen => rfl
    | _ =>
      rw [hst] at hw
      cases hw
  · have hlen := run_way hT
    rw [hl] at hlen
    simpa [Client.releasing, State.way] using hlen

theorem released_handshake :
    (∃ T m', Run ({} : Config).step (final start handshakeRun) T m' ∧
        inputs T = (sampleClient 40001).releasing 7 9 .established ∧ m'.state = .listen) ∧
      ∀ T m', Run ({} : Config).step (final start handshakeRun) T m' → m'.state = .listen →
        ((sampleClient 40001).releasing 7 9 .established).length ≤ T.length :=
  released ⟨_, handshake_run⟩ (sampleClient 40001) 7 9

end Integratio
