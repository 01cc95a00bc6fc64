import Mathlib.Tactic.TypeStar

/-!
# Lines

Texts of lines that end in two marks `cr lf`. `splitBlank` cuts a text at its first empty line, the
first `cr lf cr lf`. What lines are read back: the lines of a text that an empty line ends are all
before it (`splitBlank_text`), so what comes after them may hold empty lines of its own.
-/

namespace Lines

variable {α : Type*}

/-- A line that is told apart from its end: it is not empty and has none of the marks. -/
structure Line (cr lf : α) (l : List α) : Prop where
  ne_nil : l ≠ []
  cr : cr ∉ l
  lf : lf ∉ l

/-- The lines, each with its end. -/
def text (cr lf : α) (ls : List (List α)) : List α := ls.flatMap (· ++ [cr, lf])

/-- What is before the first empty line, and what is after it. -/
def splitBlank [DecidableEq α] (cr lf : α) : List α → Option (List α × List α)
  | [] => none
  | a :: l =>
    if [cr, lf, cr, lf] <+: a :: l then some ([], l.drop 3)
    else (splitBlank cr lf l).map fun (h, r) => (a :: h, r)

section

variable {cr lf : α} {l r : List α} {ls : List (List α)}

theorem text_eq_intercalate (h : ls ≠ []) :
    text cr lf ls = [cr, lf].intercalate ls ++ [cr, lf] := by
  induction ls with
  | nil => exact absurd rfl h
  | cons l ls ih =>
    cases ls with
    | nil => simp [text]
    | cons l' ls =>
      rw [List.intercalate_cons_cons, List.append_assoc, ← ih (List.cons_ne_nil _ _)]
      simp [text]

theorem text_concat (ls : List (List α)) (l : List α) :
    text cr lf (ls ++ [l]) = text cr lf ls ++ l ++ [cr, lf] := by
  simp [text]

theorem intercalate_concat (ls : List (List α)) (l : List α) :
    [cr, lf].intercalate (ls ++ [l]) = text cr lf ls ++ l := by
  have h := @text_eq_intercalate _ cr lf (ls ++ [l]) (by simp)
  rw [text_concat] at h
  exact (List.append_cancel_right h).symm

/-- Joined lines start and stop with something that is not a mark. -/
theorem intercalate_ends (hls : ls ≠ []) (h : ∀ l ∈ ls, Line cr lf l) :
    ∃ a b, ([cr, lf].intercalate ls).head? = some a ∧ a ∉ [cr, lf] ∧
      ([cr, lf].intercalate ls).getLast? = some b ∧ b ∉ [cr, lf] := by
  have hmark : ∀ l ∈ ls, ∀ a ∈ l, a ∉ [cr, lf] := by
    intro l hl a ha hm
    rcases List.mem_cons.1 hm with rfl | hm
    · exact (h l hl).cr ha
    · exact (h l hl).lf (List.mem_singleton.1 hm ▸ ha)
  obtain ⟨a, ha, hfirst⟩ : ∃ a, ([cr, lf].intercalate ls).head? = some a ∧ a ∉ [cr, lf] := by
    obtain ⟨l, ls', rfl⟩ := List.exists_cons_of_ne_nil hls
    obtain ⟨a, m, rfl⟩ := List.exists_cons_of_ne_nil (h l (.head _)).ne_nil
    refine ⟨a, ?_, hmark _ (.head _) a (.head _)⟩
    cases ls' <;> simp [List.intercalate_cons_cons]
  obtain ⟨b, hb, hlast⟩ : ∃ b, ([cr, lf].intercalate ls).getLast? = some b ∧ b ∉ [cr, lf] := by
    obtain ⟨ls', l, rfl⟩ : ∃ ls' l, ls = ls' ++ [l] :=
      ⟨_, _, (List.dropLast_concat_getLast hls).symm⟩
    have hl : l ∈ ls' ++ [l] := by simp
    have hne := (h l hl).ne_nil
    refine ⟨l.getLast hne, ?_, hmark l hl _ (List.getLast_mem hne)⟩
    rw [intercalate_concat, List.getLast?_append, List.getLast?_eq_some_getLast hne, Option.some_or]
  exact ⟨a, b, ha, hfirst, hb, hlast⟩

variable [DecidableEq α]

theorem splitBlank_append (h : cr ∉ l) (r : List α) :
    splitBlank cr lf (l ++ r) = (splitBlank cr lf r).map fun (a, b) => (l ++ a, b) := by
  induction l with
  | nil => simp
  | cons a l ih =>
    have ha : cr ≠ a := fun e => h (e ▸ List.mem_cons_self)
    rw [List.cons_append, splitBlank, if_neg (by simp [ha]),
      ih fun hm => h (List.mem_cons_of_mem _ hm), Option.map_map]
    rfl

/-- The end of a line that a line with a first element follows. -/
theorem splitBlank_end {a : α} (hne : cr ≠ lf) (ha : cr ≠ a) (r : List α) :
    splitBlank cr lf (cr :: lf :: a :: r) =
      (splitBlank cr lf (a :: r)).map fun (x, y) => (cr :: lf :: x, y) := by
  rw [splitBlank, if_neg (by simp [ha]), splitBlank, if_neg (by simp [hne]), Option.map_map]
  rfl

theorem splitBlank_blank (r : List α) :
    splitBlank cr lf (cr :: lf :: cr :: lf :: r) = some ([], r) := by
  rw [splitBlank, if_pos (by simp)]
  rfl

/-- **Lines that an empty line ends are read back**, whatever follows. -/
theorem splitBlank_text (hne : cr ≠ lf) (hls : ls ≠ []) (h : ∀ l ∈ ls, Line cr lf l)
    (r : List α) :
    splitBlank cr lf (text cr lf ls ++ cr :: lf :: r) = some ([cr, lf].intercalate ls, r) := by
  induction ls with
  | nil => exact absurd rfl hls
  | cons l ls ih =>
    have hl := (h l (.head _)).cr
    cases ls with
    | nil =>
      rw [text, List.flatMap_singleton, List.append_assoc, splitBlank_append hl]
      simp only [List.cons_append, List.nil_append, splitBlank_blank, Option.map_some,
        List.append_nil, List.intercalate_singleton]
    | cons l' ls =>
      have ih := ih (List.cons_ne_nil _ _) fun x hx => h x (.tail _ hx)
      obtain ⟨a, m, hm⟩ := List.exists_cons_of_ne_nil (h l' (.tail _ (.head _))).ne_nil
      have ha : cr ≠ a := by
        rintro rfl
        exact (h l' (.tail _ (.head _))).cr (hm ▸ List.mem_cons_self)
      rw [text, List.flatMap_cons, List.append_assoc, List.append_assoc, splitBlank_append hl]
      -- the next line starts with `a`
      have htext : (l' :: ls).flatMap (· ++ [cr, lf]) ++ cr :: lf :: r =
          a :: (m ++ [cr, lf] ++ text cr lf ls ++ cr :: lf :: r) := by
        simp [text, hm]
      rw [text, htext] at ih
      rw [htext, List.cons_append, List.cons_append, List.nil_append, splitBlank_end hne ha, ih]
      simp [List.intercalate_cons_cons]

end

end Lines
