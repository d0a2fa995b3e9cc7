import Mathlib.Algebra.Order.Field.Basic
import Mathlib.Data.Rat.Cast.Order
import Mathlib.Tactic.FieldSimp
import Mathlib.Tactic.Linarith
import Mathlib.Tactic.NormNum
import Mathlib.Tactic.Positivity
import Mathlib.Tactic.Ring
import Possibilistic.Proofs.Binary64.Nearness

/-!
# How far rounding raises a quotient

A rounded quotient is above the exact one by at most a part in 2⁵³ and half of
the least unit.  Chains of operations are bounded through the rational number
that a count of units makes.
-/

namespace Possibilistic

-- Powers of natural numbers are those of the core library everywhere.
attribute [local instance (2000)] instPowNat

namespace Binary64

theorem nearest_le_of_lt {numerator denominator bound : Nat}
    (below : 2 * numerator < (2 * bound + 1) * denominator) :
    nearest numerator denominator ≤ bound := by
  have rounded : 2 * (nearest numerator denominator * denominator) ≤
      2 * numerator + denominator := nearest_mul_le
  have positive : 0 < denominator := by
    apply Nat.pos_of_ne_zero
    intro vanishing
    simp [vanishing] at below
  by_contra above
  have next : (bound + 1) * denominator ≤
      nearest numerator denominator * denominator :=
    Nat.mul_le_mul_right _ (by omega)
  rw [Nat.add_mul] at below next
  rw [Nat.mul_assoc] at below
  omega

theorem spacing_mul_le (count : Nat) :
    spacing count * (2 : Nat) ^ (52 : Nat) ≤ count + (2 : Nat) ^ (52 : Nat) := by
  unfold spacing
  by_cases coarse : 52 < count.log2
  · have nonzero : count ≠ 0 := by
      intro vanishing
      simp [vanishing] at coarse
    rw [← Nat.pow_add, Nat.sub_add_cancel (Nat.le_of_lt coarse)]
    exact Nat.le_trans (Nat.log2_self_le nonzero) (Nat.le_add_right _ _)
  · rw [Nat.sub_eq_zero_of_le (Nat.le_of_not_lt coarse), Nat.pow_zero,
      Nat.one_mul]
    exact Nat.le_add_left _ _

/-- Rounding adds at most a part in 2⁵³ and half a unit. -/
theorem round_mul_le (numerator denominator : Nat) :
    (2 : Nat) ^ (53 : Nat) * (round numerator denominator * denominator) ≤
      ((2 : Nat) ^ (53 : Nat) + 1) * numerator +
        (2 : Nat) ^ (52 : Nat) * denominator := by
  have rounded : 2 * (round numerator denominator * denominator) ≤
      2 * numerator + denominator * spacing (numerator / denominator) := by
    have product : round numerator denominator * denominator =
        nearest numerator (denominator * spacing (numerator / denominator)) *
          (denominator * spacing (numerator / denominator)) := by
      unfold round
      dsimp only
      rw [Nat.mul_assoc, Nat.mul_comm (spacing _) denominator]
    rw [product]
    exact nearest_mul_le
  have spaced : denominator * spacing (numerator / denominator) *
      (2 : Nat) ^ (52 : Nat) ≤
        numerator + (2 : Nat) ^ (52 : Nat) * denominator := by
    calc
      _ = denominator * (spacing (numerator / denominator) * 2 ^ 52) :=
        Nat.mul_assoc _ _ _
      _ ≤ denominator * (numerator / denominator + 2 ^ 52) :=
        Nat.mul_le_mul_left _ (spacing_mul_le _)
      _ = denominator * (numerator / denominator) + 2 ^ 52 * denominator := by
        rw [Nat.mul_add, Nat.mul_comm denominator (2 ^ 52)]
      _ ≤ _ := Nat.add_le_add_right (Nat.mul_div_le _ _) _
  generalize round numerator denominator * denominator = product at *
  generalize denominator * spacing (numerator / denominator) = step at *
  omega

/-- The number that so many units make. -/
def value (units : Nat) : ℚ :=
  units / unit

theorem unit_cast_pos : (0 : ℚ) < unit :=
  Nat.cast_pos.mpr unit_pos

theorem value_nonneg (units : Nat) : 0 ≤ value units :=
  div_nonneg (Nat.cast_nonneg units) unit_cast_pos.le

theorem value_pos {units : Nat} (positive : 0 < units) : 0 < value units :=
  div_pos (Nat.cast_pos.mpr positive) unit_cast_pos

theorem value_unit : value unit = 1 :=
  div_self unit_cast_pos.ne'

theorem value_mul_unit (units : Nat) : value units * unit = units :=
  div_mul_cancel₀ _ unit_cast_pos.ne'

theorem value_le_iff {left right : Nat} :
    value left ≤ value right ↔ left ≤ right := by
  rw [value, value, div_le_div_iff_of_pos_right unit_cast_pos, Nat.cast_le]

private theorem half_unit_le : 1 / (2 * (unit : ℚ)) ≤ 1 / 10 ^ 30 := by
  have large : (10 : Nat) ^ (30 : Nat) ≤ 2 * unit := by
    unfold unit
    decide +kernel
  apply one_div_le_one_div_of_le (by positivity)
  exact_mod_cast large

/-- What rounding does to the number that a quotient of units makes. -/
theorem value_round_le {numerator denominator : Nat} {quotient : ℚ}
    (positive : 0 < denominator)
    (makes : (numerator : ℚ) = quotient * (denominator * unit)) :
    value (round numerator denominator) ≤
      quotient * (1 + 1 / 2 ^ 53) + 1 / 10 ^ 30 := by
  have denominatorPos : (0 : ℚ) < denominator := Nat.cast_pos.mpr positive
  have unitPos := unit_cast_pos
  have rounded : (2 : ℚ) ^ 53 * (round numerator denominator * denominator) ≤
      (2 ^ 53 + 1) * numerator + 2 ^ 52 * denominator := by
    exact_mod_cast round_mul_le numerator denominator
  rw [makes] at rounded
  have scaled : value (round numerator denominator) ≤
      ((2 ^ 53 + 1) * (quotient * (denominator * unit)) +
        2 ^ 52 * denominator) / (2 ^ 53 * denominator * unit) := by
    rw [value, div_le_div_iff₀ unitPos (by positivity)]
    nlinarith [mul_le_mul_of_nonneg_right rounded unitPos.le]
  have parts : ((2 ^ 53 + 1) * (quotient * (denominator * unit)) +
      2 ^ 52 * denominator : ℚ) / (2 ^ 53 * denominator * unit) =
        quotient * (1 + 1 / 2 ^ 53) + 1 / (2 * unit) := by
    field_simp
  have small := half_unit_le
  linarith

end Binary64

end Possibilistic
