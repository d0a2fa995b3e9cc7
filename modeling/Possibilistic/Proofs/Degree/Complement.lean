import Possibilistic.Degree
import Possibilistic.Proofs.Binary64.Nearness

/-!
# Order and complement of degrees

Degrees are compared by their units, so a degree is known up to the sign of
zero by the positive levels that it reaches.  The complement reverses the
order, and only full truth has a complement whose complement is full truth,
although many small degrees have the complement one.
-/

namespace Possibilistic

-- Powers of natural numbers are those of the core library everywhere.
attribute [local instance (2000)] instPowNat

namespace Degree

@[simp] theorem units_one : one.units = Binary64.unit :=
  rfl

@[simp] theorem units_zero : zero.units = 0 :=
  rfl

theorem ext_units {left right : Degree} (units : left.units = right.units)
    (sign : left.negativeZero = right.negativeZero) : left = right := by
  cases left
  cases right
  simp only at units sign
  subst units sign
  rfl

instance : DecidableEq Degree := fun left right =>
  decidable_of_iff
    (left.units = right.units ∧ left.negativeZero = right.negativeZero)
    ⟨fun same => ext_units same.1 same.2,
      fun equality => equality ▸ ⟨rfl, rfl⟩⟩

theorem negativeZero_of_pos {degree : Degree} (positive : 0 < degree.units) :
    degree.negativeZero = false := by
  cases sign : degree.negativeZero with
  | false => rfl
  | true =>
      have := degree.units_of_negativeZero sign
      omega

/-- The greater of two degrees is a negative zero only when the first is. -/
theorem negativeZero_max {left : Degree} (leftSign : left.negativeZero = false)
    (right : Degree) : (max left right).negativeZero = false := by
  change (if left < right then right else left).negativeZero = false
  split
  · rename_i above
    exact negativeZero_of_pos (Nat.lt_of_le_of_lt (Nat.zero_le _) above)
  · exact leftSign

theorem le_max_iff {level left right : Degree} :
    level ≤ max left right ↔ level ≤ left ∨ level ≤ right := by
  simp only [le_iff, units_max]
  omega

theorem le_min_iff {level left right : Degree} :
    level ≤ min left right ↔ level ≤ left ∧ level ≤ right := by
  simp only [le_iff, units_min]
  omega

theorem pos_of_isZero_eq_false {degree : Degree}
    (nonzero : degree.isZero = false) : 0 < degree.units := by
  apply Nat.pos_of_ne_zero
  intro vanishing
  rw [isZero_iff.mpr vanishing] at nonzero
  cases nonzero

/-- Two degrees that reach the same positive levels have the same units. -/
theorem units_eq_of_le_iff {left right : Degree}
    (levels : ∀ level : Degree, 0 < level.units →
      (level ≤ left ↔ level ≤ right)) :
    left.units = right.units := by
  apply Nat.le_antisymm
  · by_cases positive : 0 < left.units
    · exact (levels left positive).mp (Nat.le_refl _)
    · omega
  · by_cases positive : 0 < right.units
    · exact (levels right positive).mpr (Nat.le_refl _)
    · omega

/-- Only a positive degree has to be compared, since a zero is below all. -/
theorem le_of_pos {left right : Degree}
    (ordered : 0 < left.units → left ≤ right) : left ≤ right := by
  by_cases positive : 0 < left.units
  · exact ordered positive
  · rw [le_iff]
    omega

theorem units_complement (degree : Degree) :
    degree.complement.units =
      Binary64.round (Binary64.unit - degree.units) 1 :=
  rfl

theorem complement_antitone {small large : Degree} (ordered : small ≤ large) :
    large.complement ≤ small.complement := by
  have units_le : small.units ≤ large.units := ordered
  exact Binary64.round_mono Nat.one_pos (by omega)

theorem complement_congr {left right : Degree}
    (units : left.units = right.units) :
    left.complement = right.complement := by
  apply ext_units
  · rw [units_complement, units_complement, units]
  · rfl

theorem complement_isOne_of_isZero {degree : Degree}
    (vanishing : degree.isZero = true) : degree.complement.isOne = true := by
  rw [isOne_iff, units_complement, isZero_iff.mp vanishing]
  exact Binary64.round_self Binary64.representable_unit

theorem complement_isZero_iff {degree : Degree} :
    degree.complement.isZero = true ↔ degree.isOne = true := by
  rw [isZero_iff, isOne_iff, units_complement]
  have bounded := degree.atMostOne
  constructor
  · intro vanishing
    by_cases full : degree.units = Binary64.unit
    · exact full
    · have positive : 1 ≤ Binary64.round (Binary64.unit - degree.units) 1 :=
        Binary64.le_round Nat.one_pos
          (Binary64.representable_of_lt (by decide)) (by omega)
      omega
  · intro full
    rw [full, Nat.sub_self]
    exact Binary64.round_zero 1 Nat.one_pos

theorem pos_of_complement_complement_pos {degree : Degree}
    (positive : 0 < degree.complement.complement.units) :
    0 < degree.units := by
  apply Nat.pos_of_ne_zero
  intro vanishing
  have full := complement_isOne_of_isZero (isZero_iff.mpr vanishing)
  have lost := isZero_iff.mp (complement_isZero_iff.mpr full)
  omega

/-- The distance between one and the number just below it. -/
@[irreducible] def gapBelowOne : Nat := (2 : Nat) ^ (1021 : Nat)

private theorem gapBelowOne_pos : 0 < gapBelowOne := by
  unfold gapBelowOne
  exact Nat.two_pow_pos 1021

private theorem unit_eq_gaps :
    Binary64.unit = gapBelowOne * (2 : Nat) ^ (53 : Nat) := by
  unfold Binary64.unit gapBelowOne
  simp only [← Nat.pow_add, Nat.reduceAdd]

private theorem representable_gapBelowOne :
    Binary64.Representable gapBelowOne := by
  unfold gapBelowOne
  exact Binary64.representable_two_pow 1021

private theorem representable_unit_sub_gap :
    Binary64.Representable (Binary64.unit - gapBelowOne) := by
  unfold Binary64.unit gapBelowOne
  decide +kernel

private theorem spacing_eq_gapBelowOne {count : Nat}
    (lower : (2 : Nat) ^ (1073 : Nat) ≤ count) (below : count < Binary64.unit) :
    Binary64.spacing count = gapBelowOne := by
  unfold Binary64.unit at below
  have nonzero : count ≠ 0 := by
    have := Nat.two_pow_pos 1073
    omega
  have exponent : count.log2 = 1073 :=
    (Nat.log2_eq_iff nonzero).mpr
      ⟨lower, by simpa only [Nat.reduceAdd] using below⟩
  unfold Binary64.spacing gapBelowOne
  simp only [exponent, Nat.reduceSub]

private theorem gapBelowOne_dvd {count : Nat}
    (representable : Binary64.Representable count)
    (lower : (2 : Nat) ^ (1073 : Nat) ≤ count) (below : count < Binary64.unit) :
    gapBelowOne ∣ count := by
  rw [← spacing_eq_gapBelowOne lower below]
  exact Nat.dvd_of_mod_eq_zero representable

/-- No number lies in the gap below one. -/
private theorem le_unit_sub_gap {count : Nat}
    (representable : Binary64.Representable count)
    (below : count < Binary64.unit) :
    count ≤ Binary64.unit - gapBelowOne := by
  by_cases lower : 2 ^ 1073 ≤ count
  · obtain ⟨steps, equality⟩ := gapBelowOne_dvd representable lower below
    rw [unit_eq_gaps, equality] at below
    have fewer : steps < 2 ^ 53 := Nat.lt_of_mul_lt_mul_left below
    calc
      count = gapBelowOne * steps := equality
      _ ≤ gapBelowOne * (2 ^ 53 - 1) := Nat.mul_le_mul_left _ (by omega)
      _ = Binary64.unit - gapBelowOne := by
        rw [unit_eq_gaps, Nat.mul_sub_one]
  · have half_eq : 2 ^ 1073 = gapBelowOne * 2 ^ 52 := by
      unfold gapBelowOne
      simp only [← Nat.pow_add, Nat.reduceAdd]
    rw [half_eq] at lower
    rw [unit_eq_gaps]
    omega

theorem complement_complement_isOne_iff {degree : Degree} :
    degree.complement.complement.isOne = true ↔ degree.isOne = true := by
  constructor
  · intro full
    by_cases below : degree.units < Binary64.unit
    · have gap_pos := gapBelowOne_pos
      have degree_le := le_unit_sub_gap degree.representable below
      have gap_le : gapBelowOne ≤ Binary64.unit := by
        rw [unit_eq_gaps]
        exact Nat.le_mul_of_pos_right _ (Nat.two_pow_pos 53)
      have complement_ge : gapBelowOne ≤ degree.complement.units := by
        rw [units_complement]
        exact Binary64.le_round Nat.one_pos representable_gapBelowOne
          (by omega)
      have complement_le :
          degree.complement.complement.units ≤
            Binary64.unit - gapBelowOne := by
        rw [units_complement degree.complement]
        exact Binary64.round_le Nat.one_pos representable_unit_sub_gap
          (by omega)
      rw [isOne_iff] at full
      omega
    · have bounded := degree.atMostOne
      rw [isOne_iff]
      omega
  · intro full
    exact complement_isOne_of_isZero (complement_isZero_iff.mpr full)

private theorem representable_of_gapBelowOne_dvd {count : Nat}
    (divides : gapBelowOne ∣ count) (bounded : count ≤ Binary64.unit) :
    Binary64.Representable count := by
  by_cases full : count = Binary64.unit
  · rw [full]
    exact Binary64.representable_unit
  · have below : count < Binary64.unit := Nat.lt_of_le_of_ne bounded full
    have bits : count.log2 ≤ 1073 := by
      by_cases vanishing : count = 0
      · simp [vanishing]
      · unfold Binary64.unit at below
        have := (Nat.log2_lt vanishing).mpr below
        omega
    have smaller : count.log2 - 52 ≤ 1021 := by omega
    have coarser : Binary64.spacing count ∣ gapBelowOne := by
      unfold Binary64.spacing gapBelowOne
      generalize (1021 : Nat) = exponent at smaller ⊢
      exact Nat.pow_dvd_pow 2 smaller
    exact Nat.mod_eq_zero_of_dvd (Nat.dvd_trans coarser divides)

/-- From one half up the complement is exact. -/
private theorem units_complement_of_half_le {degree : Degree}
    (lower : (2 : Nat) ^ (1073 : Nat) ≤ degree.units) :
    degree.complement.units = Binary64.unit - degree.units := by
  have bounded := degree.atMostOne
  have whole : gapBelowOne ∣ Binary64.unit := by
    rw [unit_eq_gaps]
    exact Nat.dvd_mul_right _ _
  have part : gapBelowOne ∣ degree.units := by
    by_cases full : degree.units = Binary64.unit
    · rw [full]
      exact whole
    · exact gapBelowOne_dvd degree.representable lower
        (Nat.lt_of_le_of_ne bounded full)
  rw [units_complement]
  apply Binary64.round_self
  exact representable_of_gapBelowOne_dvd (Nat.dvd_sub whole part)
    (Nat.sub_le _ _)

private theorem units_complement_complement_of_half_le {degree : Degree}
    (lower : (2 : Nat) ^ (1073 : Nat) ≤ degree.units) :
    degree.complement.complement.units = degree.units := by
  have bounded := degree.atMostOne
  have difference : Binary64.unit - (Binary64.unit - degree.units) =
      degree.units := by omega
  rw [units_complement degree.complement, units_complement_of_half_le lower,
    difference]
  exact Binary64.round_self degree.representable

private theorem unit_eq_halves :
    Binary64.unit = (2 : Nat) ^ (1073 : Nat) + (2 : Nat) ^ (1073 : Nat) := by
  have doubled := Nat.two_pow_succ 1073
  unfold Binary64.unit
  simpa only [Nat.reduceAdd] using doubled

/-- The complement of a degree below one half is at least one half. -/
private theorem half_le_units_complement {degree : Degree}
    (low : degree.units < (2 : Nat) ^ (1073 : Nat)) :
    (2 : Nat) ^ (1073 : Nat) ≤ degree.complement.units := by
  have halves := unit_eq_halves
  have room :
      (2 : Nat) ^ (1073 : Nat) * 1 ≤ Binary64.unit - degree.units := by
    generalize (2 : Nat) ^ (1073 : Nat) = half at low halves ⊢
    omega
  rw [units_complement]
  exact Binary64.le_round Nat.one_pos
    (Binary64.representable_two_pow 1073) room

/-- Small degrees lose their last digits in the complement, but only once. -/
theorem complement_complement_complement (degree : Degree) :
    degree.complement.complement.complement = degree.complement := by
  by_cases lower : (2 : Nat) ^ (1073 : Nat) ≤ degree.units
  · exact complement_congr (units_complement_complement_of_half_le lower)
  · apply ext_units
    · exact units_complement_complement_of_half_le
        (half_le_units_complement (Nat.lt_of_not_le lower))
    · rfl

private theorem units_half : half.units = (2 : Nat) ^ (1073 : Nat) := by
  decide +kernel

/-- From one half up nothing is lost in two complements. -/
theorem le_complement_complement_of_half_le {degree : Degree}
    (lower : half ≤ degree) : degree ≤ degree.complement.complement := by
  rw [le_iff, units_half] at lower
  exact Nat.le_of_eq (units_complement_complement_of_half_le lower).symm

/-- The complement of a degree below one half is rounded up by at most half of
the gap below one. -/
private theorem units_complement_le {degree : Degree}
    (low : degree.units < (2 : Nat) ^ (1073 : Nat))
    (positive : 0 < degree.units) :
    2 * degree.complement.units ≤
      2 * (Binary64.unit - degree.units) + gapBelowOne := by
  have halves := unit_eq_halves
  have atLeastHalf :
      (2 : Nat) ^ (1073 : Nat) ≤ Binary64.unit - degree.units := by
    generalize (2 : Nat) ^ (1073 : Nat) = half at low halves ⊢
    omega
  have belowOne : Binary64.unit - degree.units < Binary64.unit := by omega
  rw [units_complement, ← spacing_eq_gapBelowOne atLeastHalf belowOne]
  exact Binary64.round_le_add_half_spacing _

/-- At most half of the gap below one is lost in two complements. -/
theorem units_le_complement_complement_add (degree : Degree) :
    2 * degree.units ≤
      2 * degree.complement.complement.units + gapBelowOne := by
  by_cases lower : (2 : Nat) ^ (1073 : Nat) ≤ degree.units
  · rw [units_complement_complement_of_half_le lower]
    exact Nat.le_add_right _ _
  · have low := Nat.lt_of_not_le lower
    by_cases positive : 0 < degree.units
    · have rounded := units_complement_le low positive
      have twice : degree.complement.complement.units =
          Binary64.unit - degree.complement.units :=
        units_complement_of_half_le (half_le_units_complement low)
      have bounded := degree.atMostOne
      omega
    · omega

/-- The complements of two degrees have the opposite order. -/
theorem ordered_oppositely (left right : Degree) :
    left.units ≤ right.units ∧
        right.complement.units ≤ left.complement.units ∨
      right.units ≤ left.units ∧
        left.complement.units ≤ right.complement.units :=
  (Nat.le_total left.units right.units).imp
    (fun ordered => ⟨ordered, complement_antitone ordered⟩)
    (fun ordered => ⟨ordered, complement_antitone ordered⟩)

theorem units_complement_max (left right : Degree) :
    (max left right).complement.units =
      min left.complement.units right.complement.units := by
  rcases ordered_oppositely left right with
    ⟨ordered, reversed⟩ | ⟨ordered, reversed⟩
  · have units : (max left right).units = right.units := by
      rw [units_max]
      omega
    rw [complement_congr units]
    omega
  · have units : (max left right).units = left.units := by
      rw [units_max]
      omega
    rw [complement_congr units]
    omega

theorem units_complement_min (left right : Degree) :
    (min left right).complement.units =
      max left.complement.units right.complement.units := by
  rcases ordered_oppositely left right with
    ⟨ordered, reversed⟩ | ⟨ordered, reversed⟩
  · have units : (min left right).units = left.units := by
      rw [units_min]
      omega
    rw [complement_congr units]
    omega
  · have units : (min left right).units = right.units := by
      rw [units_min]
      omega
    rw [complement_congr units]
    omega

/-- So small that the complement is full truth. -/
def isNegligible (degree : Degree) : Bool :=
  degree.complement.isOne

/-- A graded assertion counts as denied when it is certain and the fact is
negligible. -/
theorem isNegligible_max_complement_iff {degree truth : Degree} :
    (max degree.complement truth).isNegligible = true ↔
      degree.isOne = true ∧ truth.isNegligible = true := by
  have leftBounded := degree.complement.complement.atMostOne
  have rightBounded := truth.complement.atMostOne
  rw [← complement_complement_isOne_iff]
  simp only [isNegligible, isOne_iff, units_complement_max]
  omega

theorem max_isOne_iff {left right : Degree} :
    (max left right).isOne = true ↔
      left.isOne = true ∨ right.isOne = true := by
  have leftBounded := left.atMostOne
  have rightBounded := right.atMostOne
  simp only [isOne_iff, units_max]
  omega

theorem isOne_iff_one_le {degree : Degree} :
    degree.isOne = true ↔ one ≤ degree := by
  have bounded := degree.atMostOne
  rw [isOne_iff, le_iff, units_one]
  omega

theorem eq_one_of_one_le {degree : Degree}
    (reached : Degree.one ≤ degree) : degree = Degree.one := by
  have full := isOne_iff.mp (isOne_iff_one_le.mpr reached)
  apply ext_units full
  apply negativeZero_of_pos
  rw [full]
  exact Binary64.unit_pos

theorem one_min (degree : Degree) : min one degree = degree := by
  change (if degree < one then degree else one) = degree
  split
  · rfl
  · rename_i notBelow
    exact (eq_one_of_one_le (Nat.le_of_not_lt notBelow)).symm

end Degree

end Possibilistic
