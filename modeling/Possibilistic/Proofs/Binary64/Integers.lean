import Possibilistic.Proofs.Binary64.Monotone
import Possibilistic.Proofs.Degree.Arithmetic

/-!
# Integers as numbers and degrees

An integer has a binary64 number near it as long as its magnitude stays below
the middle between the greatest number and the next power of two.  Rounding
does not bring another integer between zero and one, so these two alone are
degrees.
-/

namespace Possibilistic

-- Powers of natural numbers are those of the core library everywhere.
attribute [local instance (2000)] instPowNat

namespace Binary64

/-- The least magnitude of the integers that are out of range: they are at
least half a spacing above the greatest number. -/
@[irreducible] def integerLimit : Nat :=
  (2 : Nat) ^ (1024 : Nat) - (2 : Nat) ^ (970 : Nat)

private theorem limit_le_round_integerLimit :
    limit ≤ round (unit * integerLimit) 1 := by
  unfold limit unit integerLimit
  decide +kernel

private theorem round_pred_integerLimit_lt :
    round (unit * (integerLimit - 1)) 1 < limit := by
  unfold limit unit integerLimit
  decide +kernel

theorem limit_le_round_iff {count : Nat} :
    limit ≤ round (unit * count) 1 ↔ integerLimit ≤ count := by
  constructor
  · intro outOfRange
    apply Nat.le_of_not_lt
    intro below
    have bounded : round (unit * count) 1 ≤
        round (unit * (integerLimit - 1)) 1 :=
      round_mono Nat.one_pos (Nat.mul_le_mul_left _ (by omega))
    have := round_pred_integerLimit_lt
    omega
  · intro above
    calc
      limit ≤ round (unit * integerLimit) 1 := limit_le_round_integerLimit
      _ ≤ round (unit * count) 1 :=
        round_mono Nat.one_pos (Nat.mul_le_mul_left _ above)

theorem ofInt?_eq_none_iff {value : Int} :
    ofInt? value = none ↔ integerLimit ≤ value.natAbs := by
  rw [← limit_le_round_iff]
  by_cases bounded : round (unit * value.natAbs) 1 < limit
  · simp [ofInt?, ofQuotient, bounded]
  · simp [ofInt?, ofQuotient, bounded, Nat.le_of_not_lt bounded]

theorem exists_of_ofInt?_eq_some {value : Int} {number : Binary64}
    (near : ofInt? value = some number) :
    ∃ magnitude, number = .finite (decide (value < 0)) magnitude ∧
      magnitude.units = round (unit * value.natAbs) 1 := by
  by_cases bounded : round (unit * value.natAbs) 1 < limit
  · simp only [ofInt?, ofQuotient, dif_pos bounded, Option.some.injEq] at near
    exact ⟨_, near.symm, rfl⟩
  · simp [ofInt?, ofQuotient, bounded] at near

end Binary64

namespace Degree

/-- The integers that are degrees are zero and one. -/
theorem exists_ofBinary64?_ofInt?_iff {value : Int} {number : Binary64}
    (near : Binary64.ofInt? value = some number) :
    (∃ degree, ofBinary64? number = some degree) ↔
      0 ≤ value ∧ value ≤ 1 := by
  obtain ⟨magnitude, rfl, units⟩ := Binary64.exists_of_ofInt?_eq_some near
  have unit_pos := Binary64.unit_pos
  constructor
  · rintro ⟨degree, known⟩
    apply Decidable.byContradiction
    intro outside
    have cases : value < 0 ∨ 2 ≤ value.natAbs := by omega
    rcases cases with negative | large
    · have atLeastOne : Binary64.unit ≤ magnitude.units := by
        rw [units]
        exact Binary64.le_round Nat.one_pos Binary64.representable_unit
          (Nat.mul_le_mul_left _ (by omega))
      simp only [ofBinary64?, decide_eq_true negative] at known
      split at known
      · rw [if_neg (by omega), if_pos trivial] at known
        cases known
      · cases known
    · have atLeastTwo : Binary64.unit * 2 ≤ magnitude.units := by
        rw [units]
        apply Binary64.le_round Nat.one_pos
          Binary64.representable_double_unit
        rw [Nat.mul_one]
        exact Nat.mul_le_mul_left _ large
      rw [ofBinary64?, dif_neg (by omega)] at known
      cases known
  · rintro ⟨fromZero, toOne⟩
    have nonnegative : decide (value < 0) = false := by simp [fromZero]
    have bounded : magnitude.units ≤ Binary64.unit := by
      rw [units]
      apply Binary64.round_le Nat.one_pos Binary64.representable_unit
      exact Nat.mul_le_mul_left _ (by omega)
    simp only [ofBinary64?, dif_pos bounded, nonnegative]
    split
    · exact ⟨_, rfl⟩
    · exact ⟨_, rfl⟩

end Degree

end Possibilistic
