import Possibilistic.Proofs.Binary64.Monotone
import Possibilistic.Proofs.Binary64.Nearness

/-!
# Sums of rounded counts

Rounding a count changes it by at most a part in 2⁵³, in both directions and
whatever its size, since counts below 2⁵³ are not rounded at all.  So what a
sum has lost is known from the number of roundings.  A sum of numbers up to one
stops growing at 2⁵³ and never leaves the range.
-/

namespace Possibilistic

-- Powers of natural numbers are those of the core library everywhere.
attribute [local instance (2000)] instPowNat

namespace Binary64

/-- The parts in which rounding is counted. -/
@[irreducible] def precision : Nat :=
  (2 : Nat) ^ (53 : Nat)

/-- Counts that are rounded at all have a spacing of at most a part in 2⁵². -/
theorem precision_mul_spacing_le {count : Nat} (coarse : precision ≤ count) :
    precision * spacing count ≤ 2 * count := by
  unfold precision at coarse ⊢
  have nonzero : count ≠ 0 := by
    intro vanishing
    rw [vanishing] at coarse
    cases coarse
  have bits : 53 ≤ count.log2 := (Nat.le_log2 nonzero).mpr coarse
  have halved : (2 : Nat) ^ (53 : Nat) * spacing count =
      2 * (2 : Nat) ^ count.log2 := by
    unfold spacing
    rw [← Nat.pow_add, ← Nat.pow_succ']
    congr 1
    omega
  rw [halved]
  exact Nat.mul_le_mul_left 2 (Nat.log2_self_le nonzero)

theorem round_eq_of_lt_precision {count : Nat} (fine : count < precision) :
    round count 1 = count := by
  unfold precision at fine
  exact round_self (representable_of_lt fine)

theorem precision_mul_round_le (count : Nat) :
    precision * round count 1 ≤ (precision + 1) * count := by
  by_cases fine : count < precision
  · rw [round_eq_of_lt_precision fine]
    exact Nat.mul_le_mul_right _ (Nat.le_succ _)
  · have spaced := precision_mul_spacing_le (Nat.le_of_not_lt fine)
    have rounded := Nat.mul_le_mul_left precision
      (round_le_add_half_spacing count)
    rw [Nat.mul_add, Nat.mul_left_comm, Nat.mul_left_comm precision] at rounded
    rw [Nat.add_mul]
    omega

theorem pred_precision_mul_le (count : Nat) :
    (precision - 1) * count ≤ precision * round count 1 := by
  by_cases fine : count < precision
  · rw [round_eq_of_lt_precision fine]
    exact Nat.mul_le_mul_right _ (Nat.sub_le _ _)
  · have spaced := precision_mul_spacing_le (Nat.le_of_not_lt fine)
    have rounded := Nat.mul_le_mul_left precision
      (le_round_add_half_spacing count)
    rw [Nat.mul_add, Nat.mul_left_comm, Nat.mul_left_comm precision] at rounded
    rw [Nat.sub_mul]
    omega

/-- What a chain of roundings may have made of an exact count. -/
structure WithinRoundings (roundings exact rounded : Nat) : Prop where
  lower : (precision - 1) ^ roundings * exact ≤ precision ^ roundings * rounded
  upper : precision ^ roundings * rounded ≤ (precision + 1) ^ roundings * exact

namespace WithinRoundings

variable {roundings exact rounded : Nat}

theorem refl (exact : Nat) : WithinRoundings 0 exact exact where
  lower := Nat.le_refl _
  upper := Nat.le_refl _

private theorem pow_succ_mul (base exponent count : Nat) :
    base ^ (exponent + 1) * count = base * (base ^ exponent * count) := by
  rw [Nat.pow_succ', Nat.mul_assoc]

/-- A change by at most a part in 2⁵³ counts as one more rounding. -/
theorem step {next : Nat} (within : WithinRoundings roundings exact rounded)
    (lower : (precision - 1) * rounded ≤ precision * next)
    (upper : precision * next ≤ (precision + 1) * rounded) :
    WithinRoundings (roundings + 1) exact next where
  lower := by
    rw [pow_succ_mul, pow_succ_mul]
    calc
      (precision - 1) * ((precision - 1) ^ roundings * exact) ≤
          (precision - 1) * (precision ^ roundings * rounded) :=
        Nat.mul_le_mul_left _ within.lower
      _ = precision ^ roundings * ((precision - 1) * rounded) :=
        Nat.mul_left_comm _ _ _
      _ ≤ precision ^ roundings * (precision * next) :=
        Nat.mul_le_mul_left _ lower
      _ = precision * (precision ^ roundings * next) :=
        Nat.mul_left_comm _ _ _
  upper := by
    rw [pow_succ_mul, pow_succ_mul]
    calc
      precision * (precision ^ roundings * next) =
          precision ^ roundings * (precision * next) :=
        Nat.mul_left_comm _ _ _
      _ ≤ precision ^ roundings * ((precision + 1) * rounded) :=
        Nat.mul_le_mul_left _ upper
      _ = (precision + 1) * (precision ^ roundings * rounded) :=
        Nat.mul_left_comm _ _ _
      _ ≤ (precision + 1) * ((precision + 1) ^ roundings * exact) :=
        Nat.mul_le_mul_left _ within.upper

theorem round (within : WithinRoundings roundings exact rounded) :
    WithinRoundings (roundings + 1) exact (Binary64.round rounded 1) :=
  within.step (pred_precision_mul_le rounded) (precision_mul_round_le rounded)

/-- A rounding that changes nothing widens the bounds. -/
theorem succ (within : WithinRoundings roundings exact rounded) :
    WithinRoundings (roundings + 1) exact rounded :=
  within.step (Nat.mul_le_mul_right _ (Nat.sub_le _ _))
    (Nat.mul_le_mul_right _ (Nat.le_succ _))

theorem mono {more : Nat} (within : WithinRoundings roundings exact rounded)
    (further : roundings ≤ more) : WithinRoundings more exact rounded := by
  induction further with
  | refl => exact within
  | step _ ih => exact ih.succ

theorem add {otherExact otherRounded : Nat}
    (within : WithinRoundings roundings exact rounded)
    (other : WithinRoundings roundings otherExact otherRounded) :
    WithinRoundings roundings (exact + otherExact)
      (rounded + otherRounded) where
  lower := by
    rw [Nat.mul_add, Nat.mul_add]
    exact Nat.add_le_add within.lower other.lower
  upper := by
    rw [Nat.mul_add, Nat.mul_add]
    exact Nat.add_le_add within.upper other.upper

end WithinRoundings

/-- The number at which sums of degrees stop growing, in units. -/
@[irreducible] def saturation : Nat :=
  precision * unit

private theorem round_saturation_add_unit_le :
    round (saturation + unit) 1 ≤ saturation := by
  unfold saturation precision unit
  decide +kernel

theorem saturation_lt_limit : saturation < limit := by
  unfold saturation precision unit limit
  decide +kernel

/-- A sum that is not above the saturation stays so with a number up to one. -/
theorem exists_add_eq {sum term : Magnitude}
    (notSaturated : sum.units ≤ saturation) (atMostOne : term.units ≤ unit) :
    ∃ next : Magnitude,
      Binary64.finite false sum + .finite false term = .finite false next ∧
        next.units = round (sum.units + term.units) 1 ∧
        next.units ≤ saturation := by
  have bounded : round (sum.units + term.units) 1 ≤ saturation :=
    Nat.le_trans
      (round_mono Nat.one_pos (Nat.add_le_add notSaturated atMostOne))
      round_saturation_add_unit_le
  have inRange := Nat.lt_of_le_of_lt bounded saturation_lt_limit
  have summed : Binary64.finite false sum + .finite false term =
      ofQuotient false (sum.units + term.units) 1 := by
    change (if signed false sum.units + signed false term.units = 0 then _
      else _) = _
    split
    · rename_i vanishing
      have both : sum.units + term.units = 0 := Int.ofNat.inj vanishing
      rw [both]
      rfl
    · have notNegative :
          ¬signed false sum.units + signed false term.units < 0 :=
        Int.not_lt.mpr (Int.natCast_nonneg (sum.units + term.units))
      rw [decide_eq_false notNegative]
      rfl
  refine ⟨⟨round (sum.units + term.units) 1, representable_round _ _, inRange⟩,
    ?_, rfl, bounded⟩
  rw [summed, ofQuotient, dif_pos inRange]

end Binary64

end Possibilistic
