import Mathlib.Data.BitVec

/-!
# Sequence numbers on the circle

Numbers of `n + 1` bits as points of a circle of `2 ^ (n + 1)`: `Ahead a b` when `b` is reached from
`a` by less than half a turn, and `advance a b` is `b` when it is ahead of `a`, else `a`. Comparing
the numbers themselves gives the same order exactly while the two are less than half the range apart
(`ahead_iff_lt`, `raise_eq_advance`).
-/

namespace Serial

variable {n : Nat} {a b : BitVec (n + 1)}

/-- `b` is ahead of `a`, by less than half a turn. -/
def Ahead (a b : BitVec (n + 1)) : Prop := 0 < (b - a).toNat ∧ (b - a).toNat < 2 ^ n

instance : Decidable (Ahead a b) := inferInstanceAs (Decidable (_ ∧ _))

/-- `b` when it is ahead of `a`, else `a`. -/
def advance (a b : BitVec (n + 1)) : BitVec (n + 1) := if Ahead a b then b else a

/-- The numbers are less than half the range apart, or `b` is half the range below `a`. -/
def Near (a b : BitVec (n + 1)) : Prop := b.toNat < a.toNat + 2 ^ n ∧ a.toNat ≤ b.toNat + 2 ^ n

instance : Decidable (Near a b) := inferInstanceAs (Decidable (_ ∧ _))

theorem toNat_sub_eq :
    (b - a).toNat =
      if a.toNat ≤ b.toNat then b.toNat - a.toNat else 2 ^ (n + 1) + b.toNat - a.toNat := by
  have ha := a.isLt
  have hb := b.isLt
  rw [BitVec.toNat_sub]
  split
  · rename_i hle
    rw [show 2 ^ (n + 1) - a.toNat + b.toNat = (b.toNat - a.toNat) + 2 ^ (n + 1) by omega,
      Nat.add_mod_right, Nat.mod_eq_of_lt (by omega)]
  · rename_i hgt
    rw [Nat.mod_eq_of_lt (by omega)]
    omega

/-- **The order of the numbers is the order on the circle exactly when they are near.** -/
theorem ahead_iff_lt : (Ahead a b ↔ a < b) ↔ Near a b := by
  have hpow : 2 ^ (n + 1) = 2 * 2 ^ n := Nat.pow_succ'
  have hpos : 0 < 2 ^ n := Nat.two_pow_pos n
  have hb := b.isLt
  unfold Ahead Near
  rw [BitVec.lt_def, toNat_sub_eq]
  split
  · omega
  · omega

/-- **The larger number is the later one exactly when the numbers are near.** -/
theorem raise_eq_advance : (if a < b then b else a) = advance a b ↔ Near a b := by
  rw [← ahead_iff_lt]
  unfold advance
  by_cases hlt : a < b
  · have hne : a ≠ b := fun he => by simp [he] at hlt
    by_cases hah : Ahead a b
    · simp [hlt, hah]
    · simp [hlt, hah, hne.symm]
  · by_cases hah : Ahead a b
    · have hne : a ≠ b := fun he => by simp [Ahead, he] at hah
      simp [hlt, hah, hne]
    · simp [hlt, hah]

end Serial
