import Integratio.Applicator.Proof.Accepted
import Integratio.Applicator.Proof.Content

/-!
# Requests with a `NUL`

`getResponse` hands the parser the payload up to its first `NUL`.

* `judged_iff`: the response is the one of the whole payload exactly when no length before the first
  `NUL` is one that the parser cannot reserve, and the payload does not begin with a complete
  request that has the `NUL` in it and a response.
-/

namespace Integratio

open Scanner HttpRequestParser

variable {memory : Nat} {payload text : Bytes} {r : Outcome}

/-! ## The text before the first `NUL` -/

theorem nul_not_mem_cStr (s : Bytes) : 0 ∉ cStr s := by
  intro h
  have hall := List.all_takeWhile (p := fun b : UInt8 => decide (b ≠ 0)) (l := s)
  exact absurd (List.all_eq_true.1 hall 0 h) (by decide)

theorem cStr_begins (s : Bytes) : cStr s <+: s := List.takeWhile_prefix _

/-- What begins a text and has no `NUL` begins its C string. -/
theorem prefix_cStr (hp : text <+: payload) (h0 : 0 ∉ text) : text <+: cStr payload := by
  obtain ⟨rest, rfl⟩ := hp
  rw [cStr_append h0]
  exact List.prefix_append _ _

/-- A result that comes before the first `NUL` is that of the whole payload. -/
theorem parse_cStr (h : Stops (step memory) ({}, {}) (cStr payload) r) :
    parse memory payload = r := by
  obtain ⟨rest, he⟩ := cStr_begins payload
  exact (congrArg (parse memory) he).symm.trans (h.scan_eq rest)

/-! ## The response -/

namespace HTTPApplicator

/-- The stored response for the URI of the whole payload, if that is a complete request. -/
def judged (a : HTTPApplicator) (memory : Nat) (payload : Bytes) : Bytes :=
  match parse memory payload with
  | .ok (.parsingCompleted, request) => (a.resources request.uri).getD []
  | _ => []

variable {a : HTTPApplicator}

/-- The whole payload has a response when it begins with a complete request that has one. -/
theorem judged_ne_nil_iff : a.judged memory payload ≠ [] ↔
    ∃ text req, text <+: payload ∧ RequestText memory text req ∧
      (a.resources req.uri).getD [] ≠ [] := by
  constructor
  · intro h
    unfold judged at h
    split at h
    · rename_i req hp
      obtain ⟨text, ht, hreq⟩ := ((parse_eq_iff (by simp)).1 hp)
      exact ⟨text, req, ht, completes_iff.1 hreq, h⟩
    · exact absurd rfl h
  · rintro ⟨text, req, ht, hreq, hne⟩
    have hp : parse memory payload = .ok (.parsingCompleted, req) :=
      (parse_eq_iff (by simp)).2 ⟨text, ht, hreq.stops⟩
    unfold judged
    rw [hp]
    exact hne

/-- **A request is judged on all its bytes exactly when** no length before its first `NUL` cannot be
reserved, and no complete request with a `NUL` in it loses its response. -/
theorem judged_iff (a : HTTPApplicator) (memory : Nat) (payload : Bytes) :
    a.getResponse memory payload = .ok (a.judged memory payload) ↔
      (¬ ∃ text e, text <+: cStr payload ∧ RefusedText memory text e) ∧
        ¬ ∃ text req, text <+: payload ∧ RequestText memory text req ∧ 0 ∈ text ∧
          (a.resources req.uri).getD [] ≠ [] := by
  rcases parse_cases memory (cStr payload) with ⟨l, hl, hp⟩ | hs
  · -- nothing is complete before the first `NUL`
    have hget : a.getResponse memory payload = .ok [] := by
      unfold getResponse
      rw [hp]
      rfl
    have hno : ¬ ∃ text e, text <+: cStr payload ∧ RefusedText memory text e := by
      rintro ⟨text, e, ht, he⟩
      exact hl.not_stops (he.stops.stops ht)
    have hnul : ∀ {text req}, text <+: payload → RequestText memory text req → 0 ∈ text := by
      intro text req ht hreq
      by_contra h0
      exact hl.not_stops (hreq.stops.stops (prefix_cStr ht h0))
    rw [hget, Except.ok.injEq, eq_comm, and_iff_right hno, ← not_iff_not, not_not,
      ← ne_eq, judged_ne_nil_iff]
    constructor
    · rintro ⟨text, req, ht, hreq, hne⟩
      exact ⟨text, req, ht, hreq, hnul ht hreq, hne⟩
    · rintro ⟨text, req, ht, hreq, -, hne⟩
      exact ⟨text, req, ht, hreq, hne⟩
  · have hsame := parse_cStr hs
    have hno : ¬ ∃ text req, text <+: payload ∧ RequestText memory text req ∧ 0 ∈ text ∧
        (a.resources req.uri).getD [] ≠ [] := by
      rintro ⟨text, req, ht, hreq, h0, -⟩
      -- the result comes at one place, which is before the `NUL`
      obtain ⟨text', ht', hstop⟩ := hs.exists_prefix
      have heq : text' = text := by
        rcases List.prefix_or_prefix_of_prefix (ht'.trans (cStr_begins payload)) ht with hp | hp
        · exact hstop.eq_of_prefix hreq.stops hp
        · exact (hreq.stops.eq_of_prefix hstop hp).symm
      exact nul_not_mem_cStr payload (ht'.subset (heq ▸ h0))
    rw [and_iff_left hno]
    unfold getResponse judged
    rw [hsame]
    cases hr : parse memory (cStr payload) with
    | error e =>
      rw [hr] at hs
      obtain ⟨text, ht, hstop⟩ := hs.exists_prefix
      exact iff_of_false nofun fun h => h ⟨text, e, ht, throws_iff.1 hstop⟩
    | ok r =>
      refine iff_of_true ?_ ?_
      · obtain ⟨res, req⟩ := r
        cases res <;> rfl
      · rintro ⟨text, e, ht, he⟩
        have hpe : parse memory (cStr payload) = .error e :=
          (parse_eq_iff (by simp)).2 ⟨text, ht, he.stops⟩
        rw [hr] at hpe
        cases hpe

/-- A resource that answers `ok`. -/
def okPage : HTTPApplicator :=
  { resources := fun uri => if uri = utf8 "/a" then some (utf8 "ok") else none }

/-- A request whose three bytes of content have a `NUL` in the middle. -/
def nulPost : Bytes := utf8 "POST /a HTTP/1.1\r\nContent-Length: 3\r\n\r\n" ++ [97, 0, 98]

/-- **A `NUL` in the content of a request loses its response.** -/
theorem nul_post_unanswered :
    ¬ ∀ (a : HTTPApplicator) (memory : Nat) (payload : Bytes),
      a.getResponse memory payload = .ok (a.judged memory payload) := by
  intro h
  exact absurd (h okPage 4096 nulPost) (by decide)

end HTTPApplicator

end Integratio
