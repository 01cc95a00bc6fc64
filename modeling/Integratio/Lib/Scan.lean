import Mathlib.Tactic.TypeStar

/-!
# Scanners

A scanner reads a list one element at a time: each step goes on with another state or stops with a
result, and a list that ends before gives `eof` of the last state (`scan`). `Eats step s l s'` is
the reading of all of `l`. The rules build it from the parts of a text: one element (`Eats.single`),
a stretch that is collected (`Eats.collect`), a sequence of parts that are alike (`Eats.flatMap`);
what every step keeps of the text and the state holds at its end (`Eats.history`);
`scan_stop` is a result that does not depend on what follows. A list is read to its end or to such a
result, and not both (`eats_or_stops`, `Eats.not_stops`).
-/

namespace Scanner

variable {σ ι κ ρ : Type*}

inductive Next (σ ρ : Type*)
  | next (s : σ)
  | stop (r : ρ)

def scan (step : σ → ι → Next σ ρ) (eof : σ → ρ) : σ → List ι → ρ
  | s, [] => eof s
  | s, i :: l =>
    match step s i with
    | .next s' => scan step eof s' l
    | .stop r => r

/-- Reading all of a list without a result. -/
inductive Eats (step : σ → ι → Next σ ρ) : σ → List ι → σ → Prop
  | nil (s : σ) : Eats step s [] s
  | cons {s s' s'' : σ} {i : ι} {l : List ι} : step s i = .next s' → Eats step s' l s'' →
      Eats step s (i :: l) s''

variable {step : σ → ι → Next σ ρ} {eof : σ → ρ} {s s' s'' : σ} {i : ι} {l l' : List ι} {r : ρ}

namespace Eats

theorem single (h : step s i = .next s') : Eats step s [i] s' := .cons h (.nil s')

theorem append (h : Eats step s l s') (h' : Eats step s' l' s'') : Eats step s (l ++ l') s'' := by
  induction h with
  | nil => exact h'
  | cons hs _ ih => exact .cons hs (ih h')

theorem snoc (h : Eats step s l s') (hs : step s' i = .next s'') : Eats step s (l ++ [i]) s'' :=
  h.append (single hs)

/-- A stretch that a state collects: `f l` is the state that has `l`. -/
theorem collect {f : List ι → σ} {p : ι → Prop}
    (h : ∀ l i, p i → step (f l) i = .next (f (l ++ [i]))) (l₀ : List ι) (hl : ∀ i ∈ l, p i) :
    Eats step (f l₀) l (f (l₀ ++ l)) := by
  induction l generalizing l₀ with
  | nil =>
    rw [List.append_nil]
    exact .nil _
  | cons i l ih =>
    refine .cons (h l₀ i (hl i (.head _))) ?_
    have := ih (l₀ ++ [i]) fun j hj => hl j (.tail _ hj)
    rwa [List.append_assoc] at this

/-- Parts that are alike: `f ks` is the state that has read the parts `ks`. -/
theorem flatMap {f : List κ → σ} {part : κ → List ι}
    (h : ∀ ks k, Eats step (f ks) (part k) (f (ks ++ [k]))) (ks₀ ks : List κ) :
    Eats step (f ks₀) (ks.flatMap part) (f (ks₀ ++ ks)) := by
  induction ks generalizing ks₀ with
  | nil =>
    rw [List.append_nil]
    exact .nil _
  | cons k ks ih =>
    have := (h ks₀ k).append (ih (ks₀ ++ [k]))
    rwa [List.append_assoc] at this

end Eats

/-- **History invariants.** A property of what was read and the state, which every step keeps. -/
theorem Eats.history (P : List ι → σ → Prop)
    (hstep : ∀ l s i s', P l s → step s i = .next s' → P (l ++ [i]) s')
    (h : Eats step s l s') (h0 : P [] s) : P l s' := by
  suffices hs : ∀ l₀, P l₀ s → P (l₀ ++ l) s' from hs [] h0
  clear h0
  induction h with
  | nil s =>
    intro l₀ h
    rwa [List.append_nil]
  | cons hs _ ih =>
    intro l₀ h
    have := ih _ (hstep _ _ _ _ h hs)
    rwa [List.append_assoc] at this

/-- What is read first decides with what state the rest is read. -/
theorem scan_append (h : Eats step s l s') (rest : List ι) :
    scan step eof s (l ++ rest) = scan step eof s' rest := by
  induction h with
  | nil => rfl
  | cons hs _ ih =>
    rw [List.cons_append, scan, hs]
    exact ih

/-- A result does not depend on the rest. -/
theorem scan_stop (h : Eats step s l s') (hs : step s' i = .stop r) (rest : List ι) :
    scan step eof s (l ++ i :: rest) = r := by
  rw [scan_append h, scan, hs]

/-! ## To the end, or to a result -/

/-- Reading a list gives a result before its end. -/
def Stops (step : σ → ι → Next σ ρ) (s : σ) (l : List ι) (r : ρ) : Prop :=
  ∃ pre i rest s', l = pre ++ i :: rest ∧ Eats step s pre s' ∧ step s' i = .stop r

theorem Stops.cons (h : Stops step s' l r) (hs : step s i = .next s') :
    Stops step s (i :: l) r := by
  obtain ⟨pre, j, rest, s₁, rfl, hp, hr⟩ := h
  exact ⟨i :: pre, j, rest, s₁, rfl, .cons hs hp, hr⟩

theorem eats_or_stops (step : σ → ι → Next σ ρ) (s : σ) (l : List ι) :
    (∃ s', Eats step s l s') ∨ ∃ r, Stops step s l r := by
  induction l generalizing s with
  | nil => exact .inl ⟨s, .nil s⟩
  | cons i l ih =>
    cases hs : step s i with
    | stop r => exact .inr ⟨r, [], i, l, s, rfl, .nil s, hs⟩
    | next s₁ =>
      rcases ih s₁ with ⟨s', h⟩ | ⟨r, h⟩
      · exact .inl ⟨s', .cons hs h⟩
      · exact .inr ⟨r, h.cons hs⟩

theorem Stops.scan_eq (h : Stops step s l r) (rest : List ι) :
    scan step eof s (l ++ rest) = r := by
  obtain ⟨pre, i, rest', s', rfl, hp, hr⟩ := h
  rw [List.append_assoc]
  exact scan_stop hp hr (rest' ++ rest)

theorem Eats.scan_eq (h : Eats step s l s') : scan step eof s l = eof s' := by
  have he : scan step eof s (l ++ []) = eof s' := scan_append h []
  rwa [List.append_nil] at he

theorem Eats.not_stops (h : Eats step s l s') : ¬ Stops step s l r := by
  intro ⟨pre, i, rest, s₁, hl, hp, hr⟩
  induction hp generalizing l with
  | nil s =>
    rw [hl] at h
    cases h with
    | cons hs _ =>
      rw [hr] at hs
      cases hs
  | cons hs₁ _ ih =>
    rw [hl] at h
    cases h with
    | cons hs h' =>
      rw [hs₁] at hs
      cases hs
      exact ih h' rfl hr

/-- What begins a list that can be read can be read. -/
theorem Eats.of_prefix (h : Eats step s l s') (hp : l' <+: l) : ∃ s'', Eats step s l' s'' := by
  induction h generalizing l' with
  | nil s =>
    obtain rfl := List.prefix_nil.1 hp
    exact ⟨s, .nil s⟩
  | @cons s _ _ i l hs _ ih =>
    cases l' with
    | nil => exact ⟨s, .nil s⟩
    | cons j l' =>
      obtain ⟨rfl, hrest⟩ := List.cons_prefix_cons.1 hp
      obtain ⟨s'', h⟩ := ih hrest
      exact ⟨s'', .cons hs h⟩

/-- The result comes at the last element. -/
def StopsAt (step : σ → ι → Next σ ρ) (s : σ) (l : List ι) (r : ρ) : Prop :=
  ∃ pre i s', l = pre ++ [i] ∧ Eats step s pre s' ∧ step s' i = .stop r

theorem StopsAt.stops (h : StopsAt step s l r) (hp : l <+: l') : Stops step s l' r := by
  obtain ⟨pre, i, s', rfl, hpre, hr⟩ := h
  obtain ⟨rest, rfl⟩ := hp
  exact ⟨pre, i, rest, s', by simp, hpre, hr⟩

theorem Stops.exists_prefix (h : Stops step s l r) : ∃ l', l' <+: l ∧ StopsAt step s l' r := by
  obtain ⟨pre, i, rest, s', rfl, hpre, hr⟩ := h
  exact ⟨pre ++ [i], ⟨rest, by simp⟩, pre, i, s', rfl, hpre, hr⟩

/-- A list has one place where its result comes. -/
theorem StopsAt.eq_of_prefix {r' : ρ} (h : StopsAt step s l r) (h' : StopsAt step s l' r')
    (hp : l <+: l') : l = l' := by
  obtain ⟨pre, i, s', rfl, hpre, -⟩ := h'
  rcases List.prefix_concat_iff.1 hp with he | hp
  · exact he
  · exact absurd (h.stops hp) hpre.not_stops

theorem Eats.unique (h : Eats step s l s') (h' : Eats step s l s'') : s' = s'' := by
  induction h with
  | nil =>
    cases h'
    rfl
  | cons hs _ ih =>
    cases h' with
    | cons hs' h' =>
      rw [hs] at hs'
      cases hs'
      exact ih h'

end Scanner
