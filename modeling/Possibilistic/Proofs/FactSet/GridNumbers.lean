import Possibilistic.FactSet.Grid
import Possibilistic.Proofs.Binary64.Accuracy

/-!
# The numbers on a grid

The multiples of a step are counted up to a quotient with a tolerance, rounded
twice, and rounded to ten places.  They ascend from zero, and all but the last
are at most one.  The last is at most one for small steps; for larger ones the
tolerance is coarser than the places, so that it may count one multiple too
many.
-/

namespace Possibilistic

-- Powers of natural numbers are those of the core library everywhere.
attribute [local instance (2000)] instPowNat

namespace FactSet

open Binary64

/-- The quotient of one and a step, in units. -/
def stepQuotient (step : Nat) : Nat :=
  round (unit * unit) step

/-- The tolerance, in units. -/
def toleranceUnits : Nat :=
  round (1 * unit) (10 ^ 9)

/-- The number of the last point of a grid. -/
def lastNumber (step : Nat) : Nat :=
  round (stepQuotient step + toleranceUnits) 1 / unit

/-- A multiple of a step, in units. -/
def multiple (step number : Nat) : Nat :=
  round (round (unit * number) 1 * step) unit

/-- A multiple of a step after it is rounded to ten places, in units. -/
def gridUnits (step number : Nat) : Nat :=
  round (nearest (multiple step number * 10 ^ 10) unit * unit) (10 ^ 10)

theorem gridUnits_zero (step : Nat) : gridUnits step 0 = 0 := by
  have none : nearest 0 unit = 0 :=
    Nat.le_zero.mp (nearest_le unit_pos (by omega))
  rw [gridUnits, multiple, Nat.mul_zero, round_zero 1 Nat.one_pos, Nat.zero_mul,
    round_zero unit unit_pos, Nat.zero_mul, none, Nat.zero_mul,
    round_zero (10 ^ 10) (by decide)]

theorem gridUnits_mono (step : Nat) {number other : Nat}
    (ordered : number ≤ other) :
    gridUnits step number ≤ gridUnits step other := by
  have integers : round (unit * number) 1 ≤ round (unit * other) 1 :=
    round_mono Nat.one_pos (Nat.mul_le_mul_left _ ordered)
  have multiples : multiple step number ≤ multiple step other :=
    round_mono unit_pos (Nat.mul_le_mul_right _ integers)
  apply round_mono (by decide)
  apply Nat.mul_le_mul_right
  exact nearest_mono _ (Nat.mul_le_mul_right _ multiples)

theorem value_toleranceUnits_le : value toleranceUnits ≤ 10001 / 10 ^ 13 := by
  have makes : ((1 * unit : Nat) : ℚ) =
      1 / 10 ^ 9 * ((10 ^ 9 : Nat) * unit) := by
    push_cast
    ring
  refine le_trans (value_round_le (by decide) makes) ?_
  norm_num

theorem value_stepQuotient_le {step : Nat} (positive : 0 < step) :
    value (stepQuotient step) ≤
      1 / value step * (1 + 1 / 2 ^ 53) + 1 / 10 ^ 30 := by
  have stepPos := value_pos positive
  apply value_round_le positive
  rw [← value_mul_unit step]
  push_cast
  field_simp

/-- The multiple with the last number is above one by little more than the
tolerance's share of a step. -/
theorem lastNumber_mul_le {step : Nat} (positive : 0 < step)
    (bounded : step ≤ unit) :
    (lastNumber step : ℚ) * value step ≤
      1 + 1 / 10 ^ 15 + 1001 / 10 ^ 12 * value step := by
  have stepPos := value_pos positive
  have stepLe : value step ≤ 1 := value_unit ▸ value_le_iff.mpr bounded
  have unitPos := unit_cast_pos
  have quotient := value_stepQuotient_le positive
  have tolerance := value_toleranceUnits_le
  have counted : (lastNumber step : ℚ) ≤
      value (round (stepQuotient step + toleranceUnits) 1) := by
    rw [value, le_div_iff₀ unitPos]
    exact_mod_cast Nat.div_mul_le_self _ unit
  have makes : ((stepQuotient step + toleranceUnits : Nat) : ℚ) =
      (value (stepQuotient step) + value toleranceUnits) *
        ((1 : Nat) * unit) := by
    rw [Nat.cast_one, one_mul, add_mul, value_mul_unit, value_mul_unit,
      Nat.cast_add]
  have rounded := value_round_le Nat.one_pos makes
  have reached : (lastNumber step : ℚ) ≤
      (1 / value step * (1 + 1 / 2 ^ 53) + 1 / 10 ^ 30 + 10001 / 10 ^ 13) *
        (1 + 1 / 2 ^ 53) + 1 / 10 ^ 30 := by
    linarith
  have scaled := mul_le_mul_of_nonneg_right reached stepPos.le
  have expanded :
      ((1 / value step * (1 + 1 / 2 ^ 53) + 1 / 10 ^ 30 + 10001 / 10 ^ 13) *
        (1 + 1 / 2 ^ 53) + 1 / 10 ^ 30) * value step =
          (1 + 1 / 2 ^ 53) ^ 2 +
            ((1 / 10 ^ 30 + 10001 / 10 ^ 13) * (1 + 1 / 2 ^ 53) +
              1 / 10 ^ 30) * value step := by
    field_simp
    ring
  linarith

theorem value_multiple_le {step : Nat} (bounded : step ≤ unit) (number : Nat) :
    value (multiple step number) ≤
      number * value step * (1 + 1 / 10 ^ 15) + 1 / 10 ^ 29 := by
  have stepNonneg := value_nonneg step
  have stepLe : value step ≤ 1 := value_unit ▸ value_le_iff.mpr bounded
  have unitPos := unit_cast_pos
  have integer : value (round (unit * number) 1) ≤
      number * (1 + 1 / 2 ^ 53) + 1 / 10 ^ 30 := by
    apply value_round_le Nat.one_pos
    push_cast
    ring
  have product : value (multiple step number) ≤
      value (round (unit * number) 1) * value step * (1 + 1 / 2 ^ 53) +
        1 / 10 ^ 30 := by
    apply value_round_le unit_pos
    rw [mul_mul_mul_comm, value_mul_unit, value_mul_unit, Nat.cast_mul]
  have scaled := mul_le_mul_of_nonneg_right integer stepNonneg
  have reach : (0 : ℚ) ≤ number * value step :=
    mul_nonneg (Nat.cast_nonneg number) stepNonneg
  nlinarith

/-- A multiple that is nearer to one than to the next decimal with ten places
is at most one on the grid. -/
theorem gridUnits_le_unit {step number : Nat}
    (near : value (multiple step number) < 1 + 1 / (2 * 10 ^ 10)) :
    gridUnits step number ≤ unit := by
  have unitPos := unit_cast_pos
  have below : 2 * (multiple step number * 10 ^ 10) <
      (2 * 10 ^ 10 + 1) * unit := by
    rw [value, div_lt_iff₀ unitPos] at near
    have scaled : (2 * (multiple step number * 10 ^ 10) : ℚ) <
        (2 * 10 ^ 10 + 1) * unit := by
      linarith
    exact_mod_cast scaled
  have places : nearest (multiple step number * 10 ^ 10) unit ≤ 10 ^ 10 :=
    nearest_le_of_lt below
  apply round_le (by decide) representable_unit
  rw [Nat.mul_comm unit]
  exact Nat.mul_le_mul_right _ places

theorem gridUnits_le_double_unit {step number : Nat}
    (near : value (multiple step number) ≤ 2) :
    gridUnits step number ≤ unit * 2 := by
  have unitPos := unit_cast_pos
  have below : multiple step number * 10 ^ 10 ≤ 2 * 10 ^ 10 * unit := by
    rw [value, div_le_iff₀ unitPos] at near
    have scaled : (multiple step number * 10 ^ 10 : ℚ) ≤
        2 * 10 ^ 10 * unit := by
      linarith
    exact_mod_cast scaled
  have places := nearest_le unit_pos below
  apply round_le (by decide) representable_double_unit
  calc
    _ ≤ 2 * 10 ^ 10 * unit := Nat.mul_le_mul_right _ places
    _ = unit * 2 * 10 ^ 10 := by
      rw [Nat.mul_comm, Nat.mul_assoc]

section

variable {step number : Nat} (positive : 0 < step) (bounded : step ≤ unit)

include positive bounded

theorem mul_value_le_of_le_last (earlier : number ≤ lastNumber step) :
    (number : ℚ) * value step ≤
      1 + 1 / 10 ^ 15 + 1001 / 10 ^ 12 * value step := by
  have counted : (number : ℚ) ≤ lastNumber step := Nat.cast_le.mpr earlier
  have stepNonneg := value_nonneg step
  have last := lastNumber_mul_le positive bounded
  exact le_trans (mul_le_mul_of_nonneg_right counted stepNonneg) last

/-- Only the last number of a grid can be above one. -/
theorem gridUnits_le_unit_of_lt_last (earlier : number < lastNumber step) :
    gridUnits step number ≤ unit := by
  have next := mul_value_le_of_le_last positive bounded
    (Nat.succ_le_of_lt earlier)
  have stepPos := value_pos positive
  have multiple := value_multiple_le bounded number
  apply gridUnits_le_unit
  push_cast at next
  have reached : (number : ℚ) * value step ≤ 1 + 1 / 10 ^ 15 := by linarith
  linarith

/-- On the grid of a step of at most about 0.05 no number is above one: twenty
such steps stay below one, and where there are more the step is so small that
its share of the tolerance is lost in ten places. -/
theorem gridUnits_le_unit_of_small (small : value step ≤ 1 / 20 + 1 / 10 ^ 13)
    (earlier : number ≤ lastNumber step) : gridUnits step number ≤ unit := by
  have reached := mul_value_le_of_le_last positive bounded earlier
  have stepPos := value_pos positive
  have multiple := value_multiple_le bounded number
  apply gridUnits_le_unit
  by_cases few : number ≤ 20
  · have counted : (number : ℚ) ≤ 20 := by exact_mod_cast few
    have scaled := mul_le_mul_of_nonneg_right counted stepPos.le
    linarith
  · have counted : (21 : ℚ) ≤ number := by
      exact_mod_cast Nat.lt_of_not_le few
    have scaled := mul_le_mul_of_nonneg_right counted stepPos.le
    linarith

theorem value_multiple_le_two (earlier : number ≤ lastNumber step) :
    value (multiple step number) ≤ 2 := by
  have reached := mul_value_le_of_le_last positive bounded earlier
  have stepLe : value step ≤ 1 := value_unit ▸ value_le_iff.mpr bounded
  have multiple := value_multiple_le bounded number
  linarith

end

end FactSet

end Possibilistic
