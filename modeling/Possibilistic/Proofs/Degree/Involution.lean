import Possibilistic.Formula.Basic
import Possibilistic.Proofs.Degree.Complement

/-!
# Degrees that two complements give back

Small degrees lose digits in the complement; the other degrees are given back
by a second complement.  These are closed under the connectives, and on them
the complement is dual: it turns a minimum into a maximum, and an exclusive
disjunction into the disjunction of its two agreeing cases.  The latter rests
on Kleene's inequality: no degree and its complement are both above another
degree and its complement.
-/

namespace Possibilistic

namespace Degree

/-- Two complements give the degree back. -/
def isInvolutive (degree : Degree) : Bool :=
  degree.complement.complement == degree

theorem isInvolutive_iff {degree : Degree} :
    degree.isInvolutive = true ↔
      degree.complement.complement.units = degree.units :=
  beq_iff

theorem isInvolutive_complement (degree : Degree) :
    degree.complement.isInvolutive = true := by
  rw [isInvolutive_iff, complement_complement_complement]

theorem isInvolutive_min {left right : Degree}
    (leftInvolutive : left.isInvolutive = true)
    (rightInvolutive : right.isInvolutive = true) :
    (min left right).isInvolutive = true := by
  change (if right < left then right else left).isInvolutive = true
  split
  · exact rightInvolutive
  · exact leftInvolutive

theorem isInvolutive_max {left right : Degree}
    (leftInvolutive : left.isInvolutive = true)
    (rightInvolutive : right.isInvolutive = true) :
    (max left right).isInvolutive = true := by
  change (if left < right then right else left).isInvolutive = true
  split
  · exact rightInvolutive
  · exact leftInvolutive

theorem isInvolutive_connective {left right : Degree} (connective : Connective)
    (leftInvolutive : left.isInvolutive = true)
    (rightInvolutive : right.isInvolutive = true) :
    (connective.truth left right).isInvolutive = true := by
  cases connective with
  | and => exact isInvolutive_min leftInvolutive rightInvolutive
  | or => exact isInvolutive_max leftInvolutive rightInvolutive
  | xor =>
      exact isInvolutive_max
        (isInvolutive_min (isInvolutive_complement left) rightInvolutive)
        (isInvolutive_min leftInvolutive (isInvolutive_complement right))

/-- The number of a joined degree depends on the numbers of its sides. -/
theorem units_connective_congr (connective : Connective)
    {left right otherLeft otherRight : Degree}
    (sameLeft : left.units = otherLeft.units)
    (sameRight : right.units = otherRight.units) :
    (connective.truth left right).units =
      (connective.truth otherLeft otherRight).units := by
  cases connective with
  | and => simp only [Connective.truth, units_min, sameLeft, sameRight]
  | or => simp only [Connective.truth, units_max, sameLeft, sameRight]
  | xor =>
      simp only [Connective.truth, units_min, units_max,
        complement_congr sameLeft, complement_congr sameRight, sameLeft,
        sameRight]

theorem units_complement_half : half.complement.units = half.units := by
  decide +kernel

/-- Of a degree and its complement one is at most one half. -/
theorem le_half_or_complement_le_half (degree : Degree) :
    degree ≤ half ∨ degree.complement ≤ half := by
  rcases Nat.le_total degree.units half.units with below | above
  · exact .inl below
  · right
    have reversed : degree.complement ≤ half.complement :=
      complement_antitone above
    rw [le_iff, units_complement_half] at reversed
    exact reversed

/-- Of a degree and its complement one is at least one half. -/
theorem half_le_or_half_le_complement (degree : Degree) :
    half ≤ degree ∨ half ≤ degree.complement := by
  rcases Nat.le_total half.units degree.units with above | below
  · exact .inl above
  · right
    have reversed : half.complement ≤ degree.complement :=
      complement_antitone below
    rw [le_iff, units_complement_half] at reversed
    exact reversed

/-- Kleene's inequality. -/
theorem min_complement_le_max_complement (left right : Degree) :
    min left.units left.complement.units ≤
      max right.units right.complement.units := by
  have lower := le_half_or_complement_le_half left
  have upper := half_le_or_half_le_complement right
  simp only [le_iff] at lower upper
  omega

/-- An exclusive disjunction fails as far as both sides agree. -/
theorem units_complement_xor {left right : Degree}
    (leftInvolutive : left.isInvolutive = true)
    (rightInvolutive : right.isInvolutive = true) :
    (Connective.xor.truth left right).complement.units =
      max (min left.units right.units)
        (min left.complement.units right.complement.units) := by
  rw [isInvolutive_iff] at leftInvolutive rightInvolutive
  have leftKleene := min_complement_le_max_complement left right
  have rightKleene := min_complement_le_max_complement right left
  simp only [Connective.truth, units_complement_max, units_complement_min,
    leftInvolutive, rightInvolutive]
  omega

end Degree

end Possibilistic
