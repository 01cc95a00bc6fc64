import Mathlib.Tactic.TypeStar

/-!
# Numerals

A numeral is a list of digits, the most significant first. `value` reads it, in any base and with
any reading of the single digits; the numerals that `Nat.toDigits` writes are read back
(`value_toDigits`).
-/

namespace Numeral

variable {α : Type*}

/-- The number that a list of digits stands for. -/
def value (base : Nat) (val : α → Nat) (l : List α) : Nat :=
  l.foldl (fun n d => n * base + val d) 0

theorem value_concat (base : Nat) (val : α → Nat) (l : List α) (d : α) :
    value base val (l ++ [d]) = value base val l * base + val d := by
  simp [value]

theorem value_map {β : Type*} (base : Nat) (val : β → Nat) (f : α → β) (l : List α) :
    value base val (l.map f) = value base (val ∘ f) l := by
  rw [value, List.foldl_map]
  rfl

variable {base n : Nat}

theorem mem_toDigits {c : Char} (hbase : 1 < base) (h : c ∈ Nat.toDigits base n) :
    ∃ d < base, c = d.digitChar := by
  induction n using Nat.strongRecOn with
  | ind n ih =>
    rw [Nat.toDigits_eq_if hbase] at h
    split at h
    · rename_i hn
      exact ⟨n, hn, List.mem_singleton.1 h⟩
    · rename_i hn
      rcases List.mem_append.1 h with h | h
      · exact ih _ (Nat.div_lt_self (by omega) hbase) h
      · exact ⟨n % base, Nat.mod_lt n (by omega), List.mem_singleton.1 h⟩

/-- **A numeral is read back as its number.** -/
theorem value_toDigits {val : Char → Nat} (hbase : 1 < base)
    (hval : ∀ d < base, val d.digitChar = d) (n : Nat) :
    value base val (Nat.toDigits base n) = n := by
  induction n using Nat.strongRecOn with
  | ind n ih =>
    rw [Nat.toDigits_eq_if hbase]
    split
    · rename_i hn
      simp [value, hval n hn]
    · rename_i hn
      rw [value_concat, ih _ (Nat.div_lt_self (by omega) hbase),
        hval _ (Nat.mod_lt n (by omega))]
      exact Nat.div_add_mod' n base

end Numeral
