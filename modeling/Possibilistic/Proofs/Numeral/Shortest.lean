import Mathlib.Algebra.Order.Floor.Semifield
import Mathlib.Data.Rat.Floor
import Possibilistic.Proofs.Numeral.Decimal

/-!
# Seventeen digits suffice

The search for the shortest decimal starts at a power of ten that is not above
the magnitude.  Sixteen places further the neighbours on the grid are nearer to
the magnitude than half of its last bit, so one of them reads back.  Main
statement: the shortest decimal reads back as the magnitude.
-/

namespace Possibilistic

-- Powers of natural numbers are those of the core library everywhere.
attribute [local instance (2000)] instPowNat

namespace Decimal

/-- The distance between neighbours on a decimal grid, in units. -/
def step (exponent : Int) : ℚ :=
  (10 : ℚ) ^ exponent * Binary64.unit

theorem step_pos (exponent : Int) : 0 < step exponent := by
  have unit_pos : (0 : ℚ) < Binary64.unit := by
    exact_mod_cast Binary64.unit_pos
  unfold step
  positivity

theorem value_eq (decimal : Decimal) :
    decimal.value = decimal.significand * step decimal.exponent := by
  rw [value, step, mul_assoc]

theorem step_sub_mul (exponent : Int) (places : ℕ) :
    step (exponent - places) * (10 : ℚ) ^ places = step exponent := by
  unfold step
  rw [zpow_sub₀ (by norm_num), zpow_natCast]
  field_simp

theorem powerReached_iff {units : Nat} {exponent : Int} :
    powerReached units exponent = true ↔ step exponent ≤ units := by
  let decimal : Decimal := ⟨1, exponent⟩
  have exact := decimal.quotient_value
  have positive : (0 : ℚ) < decimal.quotient.2 := by
    exact_mod_cast decimal.quotient_pos
  have value : decimal.value = step exponent := by
    rw [value_eq]
    simp [decimal]
  rw [value] at exact
  unfold powerReached
  rw [decide_eq_true_iff, ← mul_le_mul_iff_left₀ positive, ← exact]
  exact_mod_cast Iff.rfl

/-- A quotient of exponents that bounds one power by another. -/
theorem pow_le_pow_of_ratio {small large smallExponent largeExponent : Nat}
    (smallRatio largeRatio : Nat) (positive : 0 < smallRatio)
    (largePositive : 0 < large)
    (ratio : small ^ smallRatio ≤ large ^ largeRatio)
    (exponents : largeRatio * smallExponent ≤ smallRatio * largeExponent) :
    small ^ smallExponent ≤ large ^ largeExponent := by
  rw [← Nat.pow_le_pow_iff_left (Nat.ne_of_gt positive)]
  calc
    (small ^ smallExponent) ^ smallRatio =
        (small ^ smallRatio) ^ smallExponent := Nat.pow_right_comm ..
    _ ≤ (large ^ largeRatio) ^ smallExponent :=
      Nat.pow_le_pow_left ratio _
    _ = large ^ (largeRatio * smallExponent) := by rw [Nat.pow_mul]
    _ ≤ large ^ (smallRatio * largeExponent) :=
      Nat.pow_le_pow_right largePositive exponents
    _ = (large ^ largeExponent) ^ smallRatio := by
      rw [Nat.mul_comm, Nat.pow_mul]

/-- Thirty-one decimal places are less than 103 bits, and 93 bits less than
twenty-eight decimal places. -/
theorem ten_zpow_le_two_zpow {decimalExponent binaryExponent : Int}
    (above : 103 * decimalExponent ≤ 31 * binaryExponent)
    (below : 93 * decimalExponent ≤ 28 * binaryExponent) :
    (10 : ℚ) ^ decimalExponent ≤ (2 : ℚ) ^ binaryExponent := by
  rcases Int.le_total 0 decimalExponent with nonneg | nonpos
  · obtain ⟨places, rfl⟩ := Int.eq_ofNat_of_zero_le nonneg
    obtain ⟨bits, rfl⟩ := Int.eq_ofNat_of_zero_le
      (by omega : 0 ≤ binaryExponent)
    have powers : 10 ^ places ≤ 2 ^ bits :=
      pow_le_pow_of_ratio 31 103 (by omega) (by omega) (by decide) (by omega)
    exact_mod_cast powers
  · rcases Int.le_total 0 binaryExponent with large | small
    · calc
        (10 : ℚ) ^ decimalExponent ≤ 1 :=
          zpow_le_one_of_nonpos₀ (by norm_num) nonpos
        _ ≤ (2 : ℚ) ^ binaryExponent :=
          one_le_zpow₀ (by norm_num) large
    · obtain ⟨places, equality⟩ := Int.eq_ofNat_of_zero_le
        (by omega : 0 ≤ -decimalExponent)
      obtain ⟨bits, bitsEquality⟩ := Int.eq_ofNat_of_zero_le
        (by omega : 0 ≤ -binaryExponent)
      have powers : 2 ^ bits ≤ 10 ^ places :=
        pow_le_pow_of_ratio 93 28 (by omega) (by omega) (by decide)
          (by omega)
      have cast : (2 : ℚ) ^ (-binaryExponent) ≤ 10 ^ (-decimalExponent) := by
        rw [equality, bitsEquality]
        exact_mod_cast powers
      rw [← inv_le_inv₀ (by positivity) (by positivity)]
      simpa only [zpow_neg] using cast

private theorem two_pow_log2_eq (units : Nat) :
    ((2 ^ units.log2 : Nat) : ℚ) =
      (2 : ℚ) ^ ((units.log2 : Int) - 1074) * Binary64.unit := by
  have unit_eq : (Binary64.unit : ℚ) = (2 : ℚ) ^ ((1074 : Nat) : Int) := by
    unfold Binary64.unit
    -- The literal exponent is not to be evaluated.
    generalize (1074 : Nat) = bits
    rw [zpow_natCast, Nat.cast_pow, Nat.cast_two]
  rw [unit_eq, ← zpow_add₀ (by norm_num), Nat.cast_ofNat, sub_add_cancel,
    zpow_natCast, Nat.cast_pow, Nat.cast_two]

/-- The search starts at a power of ten that is not above the magnitude. -/
theorem step_leadingExponent_le {units : Nat} (positive : 0 < units)
    (bounded : units < Binary64.limit) :
    step (leadingExponent units) ≤ units := by
  unfold leadingExponent
  dsimp only
  split
  · rename_i reached
    exact powerReached_iff.mp reached
  · split
    · rename_i reached
      exact powerReached_iff.mp reached
    · have bits : units.log2 < 2098 := by
        unfold Binary64.limit at bounded
        exact (Nat.log2_lt (Nat.ne_of_gt positive)).mpr bounded
      rw [Int.fdiv_eq_ediv_of_nonneg _ (by omega)]
      generalize estimate_eq :
        ((units.log2 : Int) - 1074) * 30103 / 100000 = estimate
      calc
        step (estimate - 1) ≤
            (2 : ℚ) ^ ((units.log2 : Int) - 1074) * Binary64.unit :=
          mul_le_mul_of_nonneg_right
            (ten_zpow_le_two_zpow (by omega) (by omega)) (by positivity)
        _ = ((2 ^ units.log2 : Nat) : ℚ) := (two_pow_log2_eq units).symm
        _ ≤ units := by
          exact_mod_cast Nat.log2_self_le (Nat.ne_of_gt positive)

theorem below_eq (units : Nat) (exponent : Int) :
    below units exponent = ⌊(units : ℚ) / step exponent⌋₊ := by
  unfold below step
  split
  · rename_i nonneg
    rw [ten_zpow_of_nonneg nonneg, ← Nat.cast_mul, Nat.floor_div_eq_div,
      Nat.mul_comm]
  · rename_i negative
    have nonzero : ((10 ^ (-exponent).toNat : Nat) : ℚ) ≠ 0 := by
      exact_mod_cast Nat.ne_of_gt (Nat.pow_pos (by omega))
    have quotient : (units : ℚ) /
        (((10 ^ (-exponent).toNat : Nat) : ℚ)⁻¹ * Binary64.unit) =
          ((units * 10 ^ (-exponent).toNat : Nat) : ℚ) / Binary64.unit := by
      rw [Nat.cast_mul]
      field_simp
    rw [ten_zpow_of_neg negative, quotient, Nat.floor_div_eq_div]

theorem below_mul_step_le (units : Nat) (exponent : Int) :
    (below units exponent : ℚ) * step exponent ≤ units := by
  rw [below_eq, ← le_div_iff₀ (step_pos exponent)]
  exact Nat.floor_le (div_nonneg (by positivity) (step_pos exponent).le)

theorem lt_succ_below_mul_step (units : Nat) (exponent : Int) :
    (units : ℚ) < (below units exponent + 1) * step exponent := by
  rw [below_eq, ← div_lt_iff₀ (step_pos exponent)]
  exact Nat.lt_floor_add_one _

/-- What is found on a grid reads back. -/
theorem readsBack_of_onGrid? {units : Nat} {exponent : Int}
    {decimal : Decimal} (found : onGrid? units exponent = some decimal) :
    readsBack units decimal = true := by
  unfold onGrid? at found
  dsimp only at found
  split at found
  · cases found
  · cases found
    assumption
  · cases found
    assumption
  · rename_i lowerBack upperBack
    split at found
    · cases found
      exact lowerBack
    · cases found
      exact upperBack
    · split at found <;> cases found
      · exact lowerBack
      · exact upperBack

/-- One of the neighbours on a fine grid is near the magnitude. -/
theorem onGrid?_isSome {units : Nat} {exponent : Int}
    (representable : Binary64.Representable units) (positive : 0 < units)
    (fine : step exponent * (10 : ℚ) ^ (16 : ℕ) ≤ units) :
    (onGrid? units exponent).isSome = true := by
  have lower_le := below_mul_step_le units exponent
  have lt_upper := lt_succ_below_mul_step units exponent
  let lower : Decimal := ⟨below units exponent, exponent⟩
  let upper : Decimal := ⟨below units exponent + 1, exponent⟩
  have lowerValue : lower.value = below units exponent * step exponent :=
    value_eq lower
  have upperValue : upper.value =
      (below units exponent + 1) * step exponent := by
    rw [value_eq]
    simp [upper]
  have back : readsBack units lower = true ∨ readsBack units upper = true := by
    have reads : ∀ decimal : Decimal,
        2 * |decimal.value - units| ≤ step exponent →
          readsBack units decimal = true := by
      intro decimal half
      apply readsBack_of_near representable positive
      exact le_trans (mul_le_mul_of_nonneg_right half (by positivity)) fine
    rcases le_total (2 * (units - lower.value)) (step exponent) with
      nearLower | nearUpper
    · left
      apply reads
      rw [abs_of_nonpos (by linarith)]
      linarith
    · right
      apply reads
      rw [abs_of_nonneg (by linarith)]
      linarith
  unfold onGrid?
  dsimp only
  change readsBack units ⟨below units exponent, exponent⟩ = true ∨
    readsBack units ⟨below units exponent + 1, exponent⟩ = true at back
  split
  · rename_i lowerFails upperFails
    rw [lowerFails, upperFails] at back
    simp at back
  · rfl
  · rfl
  · split <;> rfl

section

-- A step of the search must not evaluate what is on the grid.
attribute [local irreducible] onGrid?

theorem firstGrid_succ (units grids : Nat) (exponent : Int) :
    firstGrid units (grids + 1) exponent =
      (onGrid? units exponent).getD (firstGrid units grids (exponent - 1)) := by
  conv_lhs => whnf
  cases onGrid? units exponent <;> rfl

/-- The search finds a decimal that reads back, at the latest on its last
grid. -/
theorem readsBack_firstGrid {units grids : Nat} {exponent : Int}
    (last : (onGrid? units (exponent - grids)).isSome = true) :
    readsBack units (firstGrid units (grids + 1) exponent) = true := by
  induction grids generalizing exponent with
  | zero =>
      rw [Nat.cast_zero, sub_zero] at last
      obtain ⟨decimal, found⟩ := Option.isSome_iff_exists.mp last
      rw [firstGrid_succ, found]
      exact readsBack_of_onGrid? found
  | succ grids ih =>
      rw [firstGrid_succ]
      cases found : onGrid? units exponent with
      | some decimal => exact readsBack_of_onGrid? found
      | none =>
          apply ih
          rwa [sub_sub, add_comm (1 : Int), ← Nat.cast_succ]

end

/-- The shortest decimal reads back: seventeen digits suffice. -/
theorem readsBack_shortest {units : Nat}
    (representable : Binary64.Representable units) (positive : 0 < units)
    (bounded : units < Binary64.limit) :
    readsBack units (shortest units) = true := by
  apply readsBack_firstGrid
  apply onGrid?_isSome representable positive
  calc
    step (leadingExponent units - (16 : ℕ)) * (10 : ℚ) ^ (16 : ℕ) =
        step (leadingExponent units) := step_sub_mul _ 16
    _ ≤ units := step_leadingExponent_le positive bounded

end Decimal

end Possibilistic
