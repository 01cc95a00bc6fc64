import Integratio.Applicator.Http
import Integratio.Responder.Proof.Delivery
import Integratio.Responder.Proof.Rested
import Integratio.Responder.Throws

/-!
# What brings a responder down

* `accepts_iff`: a reachable responder fails on a packet exactly when the packet is a PSH|ACK
  without a payload in `ESTABLISHED`, for `sendData` needs one, or a request that its applicator
  throws on.
* `empty_request_fails`: a responder that is brought down by the first of these.
-/

namespace Integratio

open Transducer Machine

variable {c : Config} {m m' : Machine} {p : Packet} {out : List Effect}

/-- An empty request is never a retransmission. -/
theorem Rested.fresh_empty (h : Rested m) (hst : m.state = .established)
    (hp : p.tcp.flags = TCP.PSH ||| TCP.ACK) (he : p.tcp.payload = []) :
    m.retransmitted p = false := by
  rw [Bool.eq_false_iff]
  intro hre
  obtain ⟨-, -, hfl, hpl⟩ := retransmitted_iff.1 hre
  rcases h .pshAck (hfl.trans hp) with hn | ⟨-, -, hpay⟩
  · rw [hst] at hn
    cases hn
  · exact hpay (hpl.symm.trans he)

/-! ## Errors -/

/-- A request without a payload. -/
def EmptyRequest (m : Machine) (p : Packet) : Prop :=
  m.state = .established ∧ p.tcp.flags = TCP.PSH ||| TCP.ACK ∧ p.tcp.payload = []

theorem moves_of_not_empty (c : Config) (h : ¬ EmptyRequest m p) :
    ∃ m' out, Moves c m p m' out := by
  cases hre : m.retransmitted p with
  | true => exact ⟨_, _, .dropped hre⟩
  | false =>
    by_cases hrow : ∀ e : Event, p.tcp.flags = e.flags → row? m.state e = none
    · exact ⟨_, _, .noted hre hrow⟩
    · push Not at hrow
      obtain ⟨e, hfl, hne⟩ := hrow
      obtain ⟨r, hr⟩ := Option.ne_none_iff_exists'.1 hne
      obtain ⟨hmem, hst, rfl⟩ := row?_cases hr
      simp only [transitionTable, List.mem_cons, List.not_mem_nil, or_false] at hmem
      rcases hmem with rfl | rfl | rfl | rfl | rfl
      · exact ⟨_, _, .opened hre hst.symm hfl⟩
      · exact ⟨_, _, .confirmed hre hst.symm hfl⟩
      · exact ⟨_, _, .answered hre hst.symm hfl fun hp => h ⟨hst.symm, hfl, hp⟩⟩
      · exact ⟨_, _, .finished hre hst.symm hfl⟩
      · exact ⟨_, _, .closed hre hst.symm hfl⟩

/-- `sendData` fails without a payload, and nothing else does. -/
theorem step_ok_iff (h : c.Reachable m) (p : Packet) :
    (∃ r, c.step m p = .ok r) ↔ ¬ EmptyRequest m p := by
  constructor
  · rintro ⟨r, hr⟩ ⟨hst, hfl, hp⟩
    have hfl' : p.tcp.flags = Event.pshAck.flags := hfl
    rw [step_eq, h.rested.fresh_empty hst hfl hp, hfl', eventOf_flags] at hr
    have herr := hr.symm.trans (processEvent_pshAck_error (c := c) hst hp)
    cases herr
  · intro hno
    obtain ⟨m', out, hm⟩ := moves_of_not_empty c hno
    exact ⟨_, hm.step⟩

/-! ## The applicator -/

variable {ε : Type} {r : TCPResponder ε}

/-- A request that reaches the applicator, and that the applicator throws on. -/
def TCPResponder.Throws (r : TCPResponder ε) (m : Machine) (p : Packet) : Prop :=
  m.state = .established ∧ p.tcp.flags = TCP.PSH ||| TCP.ACK ∧ m.retransmitted p = false ∧
    ∃ getResponse e, r.httz = some getResponse ∧ getResponse p.tcp.payload = .error e

theorem TCPResponder.thrown_eq_some {request : Bytes} {e : ε} :
    r.thrown request = some e ↔
      ∃ getResponse, r.httz = some getResponse ∧ getResponse request = .error e := by
  unfold TCPResponder.thrown
  cases r.httz with
  | none => simp
  | some getResponse => cases h : getResponse request <;> simp [h]

/-- A step throws when the request it asks is one that the applicator throws on. -/
theorem TCPResponder.throws_iff (h : Moves r.config m p m' out) :
    r.Throws m p ↔ ∃ request ∈ requests out, r.thrown request ≠ none := by
  rcases h.requests_eq with ⟨hreq, -, hst, hfl, hre⟩ | ⟨hreq, hno⟩
  · simp only [hreq, List.mem_singleton, exists_eq_left, Option.ne_none_iff_exists']
    constructor
    · intro hthrows
      obtain ⟨-, -, -, getResponse, e, hh, he⟩ := hthrows
      exact ⟨e, thrown_eq_some.2 ⟨getResponse, hh, he⟩⟩
    · intro hthrown
      obtain ⟨e, he⟩ := hthrown
      obtain ⟨getResponse, hh, he⟩ := thrown_eq_some.1 he
      exact ⟨hst, hfl, hre, getResponse, e, hh, he⟩
  · refine iff_of_false (fun hthrows => ?_) (by simp [hreq])
    obtain ⟨hst, hfl, hre, getResponse, e, hh, -⟩ := hthrows
    exact hno ⟨by simp [config, hh], hst, hfl, hre⟩

/-- **What brings a responder down**, from any reachable state. -/
theorem accepts_iff (h : r.Reachable m) (p : Packet) :
    (∃ x, r.step m p = .ok x) ↔ ¬ EmptyRequest m p ∧ ¬ r.Throws m p := by
  constructor
  · intro hok
    obtain ⟨⟨m', out⟩, hx⟩ := hok
    obtain ⟨hs, hnone⟩ := TCPResponder.step_ok.1 hx
    refine ⟨(step_ok_iff h.config p).1 ⟨_, hs⟩, fun hthrows => ?_⟩
    obtain ⟨request, hmem, hne⟩ := (TCPResponder.throws_iff (step_moves hs)).1 hthrows
    exact hne (hnone request hmem)
  · intro hno
    obtain ⟨⟨m', out⟩, hs⟩ := (step_ok_iff h.config p).2 hno.1
    refine ⟨(m', out), TCPResponder.step_ok.2 ⟨hs, fun request hmem => ?_⟩⟩
    by_contra hne
    exact hno.2 ((TCPResponder.throws_iff (step_moves hs)).2 ⟨request, hmem, hne⟩)

/-- A responder that serves the pages of an applicator. -/
def HTTPApplicator.responder (a : HTTPApplicator) (memory : Nat) : TCPResponder Throw :=
  { httz := some (a.getResponse memory) }

theorem handshake_reachable (a : HTTPApplicator) (memory : Nat) :
    (a.responder memory).Reachable (final start handshakeRun) :=
  have he : exec (a.responder memory).step start handshake = .ok handshakeRun := rfl
  ⟨_, (Run.of_exec he).1⟩

theorem accepts_iff_request :
    ∃ x, (HTTPApplicator.responder {} 4096).step (final start handshakeRun)
      ((sampleClient 40000).seg (TCP.PSH ||| TCP.ACK) 1001 31332 (utf8 "GET / HTTP/1.1\r\n\r\n")) =
        .ok x := by
  refine (accepts_iff (handshake_reachable {} 4096) _).2 ⟨fun h => absurd h.2.2 (by decide), ?_⟩
  rintro ⟨-, -, -, getResponse, e, hh, he⟩
  obtain rfl := Option.some.inj hh
  cases he

/-- **A PSH|ACK without a payload brings the responder down.** -/
theorem empty_request_fails :
    ¬ ∀ (r : TCPResponder Throw) (m : Machine) (p : Packet), r.Reachable m →
      ∃ x, r.step m p = .ok x := by
  intro h
  obtain ⟨x, hx⟩ := h (HTTPApplicator.responder {} 4096) (final start handshakeRun)
    ((sampleClient 40000).seg (TCP.PSH ||| TCP.ACK) 1001 31332 []) (handshake_reachable {} 4096)
  cases hx

/-- The HTTP applicator throws on a length that no vector has. -/
example (a : HTTPApplicator) (memory : Nat) :
    a.getResponse memory (utf8 "POST / HTTP/1.1\r\nContent-Length: -1\r\n\r\n") =
      .error .lengthError := rfl

end Integratio
