import Mathlib.Algebra.Order.Field.Power
import Mathlib.Algebra.Order.Ring.Abs
import Mathlib.Data.Rat.Cast.Order
import Mathlib.Tactic.FieldSimp
import Mathlib.Tactic.Linarith
import Mathlib.Tactic.NormNum
import Mathlib.Tactic.Positivity
import Mathlib.Tactic.Ring
import Possibilistic.Numeral.Shortest
import Possibilistic.Proofs.Binary64.Nearness

/-!
# The value of a decimal

A decimal is read through its exact value alone, however it is written.  Every
decimal within a relative distance of 5·10⁻¹⁷ of a representable magnitude reads
back as this magnitude, and a decimal that reads back as a magnitude in range
has an exponent that is expanded.
-/

namespace Possibilistic

-- Powers of natural numbers are those of the core library everywhere.
attribute [local instance (2000)] instPowNat

namespace Decimal

/-- The exact value, in binary64 units. -/
def value (decimal : Decimal) : ℚ :=
  decimal.significand * (10 : ℚ) ^ decimal.exponent * Binary64.unit

theorem quotient_pos (decimal : Decimal) : 0 < decimal.quotient.2 := by
  unfold quotient
  split
  · exact Nat.one_pos
  · exact Nat.pow_pos (by omega)

theorem ten_zpow_of_nonneg {exponent : Int} (nonneg : 0 ≤ exponent) :
    (10 : ℚ) ^ exponent = ((10 ^ exponent.toNat : Nat) : ℚ) := by
  obtain ⟨count, rfl⟩ := Int.eq_ofNat_of_zero_le nonneg
  simp

theorem ten_zpow_of_neg {exponent : Int} (negative : ¬0 ≤ exponent) :
    (10 : ℚ) ^ exponent = ((10 ^ (-exponent).toNat : Nat) : ℚ)⁻¹ := by
  rw [← ten_zpow_of_nonneg (by omega : 0 ≤ -exponent), zpow_neg, inv_inv]

theorem quotient_value (decimal : Decimal) :
    (decimal.quotient.1 : ℚ) = decimal.value * decimal.quotient.2 := by
  unfold quotient value
  split
  · rename_i nonneg
    rw [ten_zpow_of_nonneg nonneg]
    push_cast
    ring
  · rename_i negative
    rw [ten_zpow_of_neg negative]
    have nonzero : ((10 ^ (-decimal.exponent).toNat : Nat) : ℚ) ≠ 0 := by
      exact_mod_cast Nat.ne_of_gt (Nat.pow_pos (by omega))
    field_simp
    push_cast
    ring

/-- Factors of ten may stand in the significand or in the exponent. -/
theorem value_shift (significand places : Nat) (exponent : Int) :
    (Decimal.mk (significand * 10 ^ places) exponent).value =
      (Decimal.mk significand (exponent + places)).value := by
  simp only [value]
  rw [zpow_add₀ (by norm_num), zpow_natCast, Nat.cast_mul, Nat.cast_pow,
    Nat.cast_ofNat]
  ring

theorem readsBack_iff {units : Nat} {decimal : Decimal} :
    readsBack units decimal = true ↔
      Binary64.round decimal.quotient.1 decimal.quotient.2 = units := by
  unfold readsBack
  exact beq_iff_eq

/-- Decimals of one value are read alike. -/
theorem round_quotient_congr {left right : Decimal}
    (same : left.value = right.value) :
    Binary64.round left.quotient.1 left.quotient.2 =
      Binary64.round right.quotient.1 right.quotient.2 := by
  apply Binary64.round_congr left.quotient_pos right.quotient_pos
  have leftValue := left.quotient_value
  have rightValue := right.quotient_value
  have products : (left.quotient.1 : ℚ) * right.quotient.2 =
      right.quotient.1 * left.quotient.2 := by
    rw [leftValue, rightValue, same]
    ring
  exact_mod_cast products

theorem readsBack_congr {units : Nat} {left right : Decimal}
    (same : left.value = right.value) (back : readsBack units left = true) :
    readsBack units right = true := by
  rw [readsBack_iff] at back ⊢
  rw [← round_quotient_congr same, back]

/-- A decimal near a representable magnitude reads back as it. -/
theorem readsBack_of_near {units : Nat} {decimal : Decimal}
    (representable : Binary64.Representable units) (positive : 0 < units)
    (near : 2 * |decimal.value - units| * (10 : ℚ) ^ (16 : ℕ) ≤ units) :
    readsBack units decimal = true := by
  have denominatorPositive := decimal.quotient_pos
  have exact := decimal.quotient_value
  rw [readsBack_iff]
  generalize decimal.quotient = quotient at denominatorPositive exact ⊢
  obtain ⟨numerator, denominator⟩ := quotient
  simp only at denominatorPositive exact ⊢
  -- The distance in parts of a unit, whichever side the decimal is on.
  let error := (numerator - units * denominator) +
    (units * denominator - numerator)
  have error_eq : (error : ℚ) = |decimal.value - units| * denominator := by
    have scaled : |decimal.value - units| * denominator =
        |(numerator : ℚ) - units * denominator| := by
      rw [exact, ← sub_mul, abs_mul, Nat.abs_cast]
    rw [scaled]
    rcases Nat.le_total (units * denominator) numerator with above | below
    · have gap : error = numerator - units * denominator := by omega
      rw [gap, Nat.cast_sub above, Nat.cast_mul, abs_of_nonneg]
      exact sub_nonneg.mpr (by exact_mod_cast above)
    · have gap : error = units * denominator - numerator := by omega
      rw [gap, Nat.cast_sub below, Nat.cast_mul, abs_of_nonpos, neg_sub]
      exact sub_nonpos.mpr (by exact_mod_cast below)
  have close : 2 * error * (10 : Nat) ^ (16 : Nat) ≤ units * denominator := by
    have scaled : (2 * error * (10 : ℚ) ^ (16 : ℕ)) ≤ units * denominator := by
      calc
        2 * (error : ℚ) * (10 : ℚ) ^ (16 : ℕ) =
            2 * |decimal.value - units| * (10 : ℚ) ^ (16 : ℕ) *
              denominator := by rw [error_eq]; ring
        _ ≤ units * denominator := by gcongr
    exact_mod_cast scaled
  exact Binary64.round_eq_of_near representable denominatorPositive
    (by omega) close positive (by omega)

private theorem limit_le_ten_pow {exponent : Nat} (great : 401 ≤ exponent) :
    Binary64.limit ≤ 10 ^ exponent * Binary64.unit := by
  have reached : Binary64.limit ≤ 10 ^ 401 * Binary64.unit := by
    unfold Binary64.limit Binary64.unit
    decide +kernel
  -- A literal exponent would be evaluated.
  generalize (401 : Nat) = least at great reached
  exact Nat.le_trans reached
    (Nat.mul_le_mul_right _ (Nat.pow_le_pow_right (by omega) great))

private theorem double_unit_le_ten_pow {exponent : Nat}
    (great : 401 ≤ exponent) : 2 * Binary64.unit ≤ 10 ^ exponent := by
  have reached : 2 * Binary64.unit ≤ 10 ^ 401 := by
    unfold Binary64.unit
    decide +kernel
  generalize (401 : Nat) = least at great reached
  exact Nat.le_trans reached (Nat.pow_le_pow_right (by omega) great)

section

variable {decimal : Decimal} {magnitude : Magnitude}
  (positive : 0 < magnitude.units)
  (back : readsBack magnitude.units decimal = true)

include positive back

theorem significand_ne_zero : decimal.significand ≠ 0 := by
  intro vanishing
  have numerator : decimal.quotient.1 = 0 := by
    unfold quotient
    split <;> simp [vanishing]
  rw [readsBack_iff, numerator,
    Binary64.round_zero _ decimal.quotient_pos] at back
  omega

/-- Greater exponents are out of range. -/
theorem exponent_le : decimal.exponent ≤ 400 := by
  by_contra great
  have nonneg : 0 ≤ decimal.exponent := by omega
  have significand := significand_ne_zero positive back
  have representable : Binary64.Representable Binary64.limit := by
    unfold Binary64.limit
    exact Binary64.representable_two_pow 2098
  have reached : Binary64.limit * 1 ≤ decimal.significand *
      10 ^ decimal.exponent.toNat * Binary64.unit := by
    rw [Nat.mul_one, Nat.mul_assoc]
    exact Nat.le_trans (limit_le_ten_pow (by omega))
      (Nat.le_mul_of_pos_left _ (Nat.pos_of_ne_zero significand))
  have bounded := magnitude.bounded
  rw [readsBack_iff, quotient, if_pos nonneg] at back
  have := Binary64.le_round Nat.one_pos representable reached
  rw [back] at this
  omega

/-- Smaller exponents vanish. -/
theorem le_exponent :
    -400 ≤ decimal.exponent + (decimal.significand.log2 + 1) := by
  by_contra small
  have negative : ¬0 ≤ decimal.exponent := by omega
  have digits : decimal.significand < 2 ^ (decimal.significand.log2 + 1) :=
    Nat.lt_log2_self
  have vanishing : 2 * (decimal.significand * Binary64.unit) <
      10 ^ (-decimal.exponent).toNat := by
    have split : 10 ^ (decimal.significand.log2 + 1) *
        10 ^ ((-decimal.exponent).toNat - (decimal.significand.log2 + 1)) =
          10 ^ (-decimal.exponent).toNat := by
      rw [← Nat.pow_add]
      congr 1
      omega
    calc
      2 * (decimal.significand * Binary64.unit) =
          decimal.significand * (2 * Binary64.unit) := by
        rw [Nat.mul_left_comm]
      _ < 2 ^ (decimal.significand.log2 + 1) * (2 * Binary64.unit) :=
        Nat.mul_lt_mul_of_pos_right digits
          (Nat.mul_pos (by omega) Binary64.unit_pos)
      _ ≤ 10 ^ (decimal.significand.log2 + 1) *
          10 ^ ((-decimal.exponent).toNat -
            (decimal.significand.log2 + 1)) :=
        Nat.mul_le_mul (Nat.pow_le_pow_left (by omega) _)
          (double_unit_le_ten_pow (by omega))
      _ = 10 ^ (-decimal.exponent).toNat := split
  rw [readsBack_iff, quotient, if_neg negative,
    Binary64.round_eq_zero_of_lt vanishing] at back
  omega

/-- A decimal that reads back is read as the number. -/
theorem round_of_readsBack (negative : Bool) :
    decimal.round negative = .finite negative magnitude := by
  have notVanishing := significand_ne_zero positive back
  have notGreat := exponent_le positive back
  have notSmall := le_exponent positive back
  rw [readsBack_iff] at back
  unfold Decimal.round
  rw [if_neg notVanishing, if_neg (by omega), if_neg (by omega)]
  unfold Binary64.ofQuotient
  simp only [back, magnitude.bounded, ↓reduceDIte]

end

end Decimal

end Possibilistic
