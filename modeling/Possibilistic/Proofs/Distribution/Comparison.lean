import Possibilistic.Proofs.Distribution.Measures

/-!
# Comparing distributions

Distributions are compared one level at a time: the worlds that reach a level in
one are among those that reach it in the other.  Two distributions over one
vocabulary are equal when this holds both ways at every positive level.
-/

namespace Possibilistic

theorem Degree.list_beq_iff {left right : List Degree} :
    (left == right) = true ↔ left.map units = right.map units := by
  induction left generalizing right with
  | nil =>
      cases right with
      | nil => simp
      | cons head tail => simp
  | cons head tail ih =>
      cases right with
      | nil => simp
      | cons otherHead otherTail => simp [ih, Degree.beq_iff]

namespace Distribution

theorem beq_iff {left right : Distribution} :
    (left == right) = true ↔
      left.atoms = right.atoms ∧
        ∀ number, number < World.count left.atoms →
          (left.degreeAt number).units = (right.degreeAt number).units := by
  change (left.atoms == right.atoms && left.degrees == right.degrees) = true ↔ _
  rw [Bool.and_eq_true, beq_iff_eq, Degree.list_beq_iff]
  apply and_congr_right
  intro sameAtoms
  have sameLength : left.degrees.length = right.degrees.length := by
    rw [left.length_eq, right.length_eq, sameAtoms]
  constructor
  · intro equality number below
    rw [← left.length_eq] at below
    rw [degreeAt_eq_getElem below, degreeAt_eq_getElem (sameLength ▸ below)]
    have sameEntry := congrArg (fun units => units[number]?) equality
    simpa [below, sameLength ▸ below] using sameEntry
  · intro pointwise
    apply List.ext_getElem
    · simp [sameLength]
    · intro number below otherBelow
      rw [List.length_map] at below otherBelow
      have sameUnits := pointwise number (left.length_eq ▸ below)
      rw [degreeAt_eq_getElem below, degreeAt_eq_getElem otherBelow]
        at sameUnits
      simpa using sameUnits

/-- The worlds that reach the level in the first distribution reach it in the
second. -/
def BelowAt (level : Degree) (left right : Distribution) : Prop :=
  ∀ number, number < World.count left.atoms →
    level ≤ left.degreeAt number → level ≤ right.degreeAt number

theorem BelowAt.trans {level : Degree} {first second third : Distribution}
    (sameAtoms : first.atoms = second.atoms)
    (left : BelowAt level first second) (right : BelowAt level second third) :
    BelowAt level first third := by
  intro number below reached
  exact right number (sameAtoms ▸ below) (left number below reached)

theorem degreeAt_le_of_belowAt {left right : Distribution}
    (below : ∀ level : Degree, 0 < level.units → BelowAt level left right)
    {number : Nat} (inRange : number < World.count left.atoms) :
    left.degreeAt number ≤ right.degreeAt number := by
  apply Degree.le_of_pos
  intro positive
  exact below _ positive number inRange (Nat.le_refl _)

theorem belowAt_of_beq {left right : Distribution}
    (equal : (left == right) = true) (level : Degree) :
    BelowAt level left right ∧ BelowAt level right left := by
  obtain ⟨sameAtoms, sameUnits⟩ := beq_iff.mp equal
  constructor
  · intro number below reached
    rw [Degree.le_iff, ← sameUnits number below]
    exact reached
  · intro number below reached
    rw [Degree.le_iff, sameUnits number (sameAtoms ▸ below)]
    exact reached

theorem beq_of_belowAt {left right : Distribution}
    (sameAtoms : left.atoms = right.atoms)
    (below : ∀ level : Degree, 0 < level.units → BelowAt level left right)
    (above : ∀ level : Degree, 0 < level.units → BelowAt level right left) :
    (left == right) = true := by
  apply beq_iff.mpr
  refine ⟨sameAtoms, ?_⟩
  intro number inRange
  apply Nat.le_antisymm
  · exact degreeAt_le_of_belowAt below inRange
  · exact degreeAt_le_of_belowAt above (sameAtoms ▸ inRange)

end Distribution

end Possibilistic
