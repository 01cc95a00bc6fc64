import Integratio.Responder.Process

/-!
# A responder whose applicator throws

`httz->getResponse` may throw, out of `sendData`, the machine and `processPacket`.
`TCPResponder.step` is `processPacket` with such an applicator; where the applicator returns it is
`Config.step` (`TCPResponder.step_ok`).
-/

namespace Integratio

open Transducer

/-- What a responder's code runs against, as in `Config`, with the exceptions of its applicator. -/
structure TCPResponder (ε : Type) where
  httz : Option (Bytes → Except ε Bytes) := none
  timeTests : List TimeConf := []
  keepsInner : Bool := false

namespace TCPResponder

variable {ε : Type}

/-- The configuration, as far as the applicator returns. -/
def config (r : TCPResponder ε) : Config :=
  { httz := r.httz.map fun getResponse request => (getResponse request).toOption.getD []
    timeTests := r.timeTests
    keepsInner := r.keepsInner }

/-- What the applicator throws on a request. -/
def thrown (r : TCPResponder ε) (request : Bytes) : Option ε :=
  match r.httz with
  | none => none
  | some getResponse =>
    match getResponse request with
    | .error e => some e
    | .ok _ => none

def step (r : TCPResponder ε) (m : Machine) (p : Packet) :
    Except (Err ⊕ ε) (Machine × List Effect) :=
  match r.config.step m p with
  | .error e => .error (.inl e)
  | .ok (m', out) =>
    match (requests out).findSome? r.thrown with
    | some e => .error (.inr e)
    | none => .ok (m', out)

/-- The states of a responder that was started new. -/
def Reachable (r : TCPResponder ε) (m : Machine) : Prop := Reach r.step Machine.start m

variable {r : TCPResponder ε} {m m' : Machine} {p : Packet} {out : List Effect}

theorem step_ok : r.step m p = .ok (m', out) ↔
    r.config.step m p = .ok (m', out) ∧ ∀ request ∈ requests out, r.thrown request = none := by
  unfold step
  cases hs : r.config.step m p with
  | error e => simp
  | ok x =>
    obtain ⟨m₁, out₁⟩ := x
    rw [← List.findSome?_eq_none_iff]
    cases hf : (requests out₁).findSome? r.thrown with
    | some e =>
      refine iff_of_false (by simp [hf]) fun ⟨he, hn⟩ => ?_
      cases he
      rw [hf] at hn
      cases hn
    | none =>
      simp only [hf]
      constructor
      · intro he
        cases he
        exact ⟨rfl, hf⟩
      · rintro ⟨he, -⟩
        cases he
        rfl

/-- What such a responder reaches, one that never throws reaches too. -/
theorem Reachable.config (h : r.Reachable m) : r.config.Reachable m := by
  obtain ⟨T, hT⟩ := h
  exact ⟨T, hT.of_ok fun _ _ _ hs => (step_ok.1 hs).1⟩

theorem run_ok {T : List Machine.Step} (h : Run r.config.step m T m')
    (hno : ∀ request ∈ requests (outputs T), r.thrown request = none) : Run r.step m T m' := by
  induction h with
  | nil => exact .nil
  | snoc _ hs ih =>
    simp only [outputs_append, outputs_cons, outputs_nil, List.append_nil, requests_append,
      List.forall_mem_append] at hno
    exact .snoc (ih hno.1) (step_ok.2 ⟨hs, hno.2⟩)

end TCPResponder

end Integratio
