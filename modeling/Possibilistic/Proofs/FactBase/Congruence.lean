import Possibilistic.Proofs.FactBase.Possibility
import Possibilistic.Proofs.FuzzySet.Equality

/-!
# What necessity depends on

Necessity depends on the memberships of the facts and not on the order in which
they arrived.  It grows with the formula: what is fully true in more worlds is
at least as necessary.
-/

namespace Possibilistic

theorem FactSet.sustains_congr {left right : FactSet}
    (same : left.membership = right.membership) {atoms : List Atom}
    {formula : Formula} {level : Degree} :
    left.Sustains atoms formula level ↔
      right.Sustains atoms formula level := by
  simp only [Sustains, FuzzySet.mem_items_congr same]

theorem FactSet.Sustains.mono {facts : FactSet} {atoms : List Atom}
    {formula other : Formula} {level : Degree}
    (implied : ∀ world ∈ World.all atoms,
      (formula.truth world).isOne = true → (other.truth world).isOne = true)
    (sustained : facts.Sustains atoms formula level) :
    facts.Sustains atoms other level := by
  intro world inAll
  rcases sustained world inAll with holds | denied
  · exact .inl (implied world inAll holds)
  · exact .inr denied

namespace FactBase

/-- Facts with equal memberships make every formula equally necessary. -/
theorem value_necessity_congr {left right : FactBase}
    (same : left.facts.membership = right.facts.membership)
    (formula : Formula) :
    (left.necessity formula).value = (right.necessity formula).value := by
  cases constant : formula.constant? with
  | some degree =>
      rw [value_necessity_of_constant constant,
        value_necessity_of_constant constant]
  | none =>
      let atoms :=
        formula.mentions ++ (left.facts.mentions ++ right.facts.mentions)
      have formulaCovered : formula.mentions ⊆ atoms :=
        List.subset_append_left _ _
      have leftCovered : left.facts.mentions ⊆ atoms :=
        List.subset_append_of_subset_right _ (List.subset_append_left _ _)
      have rightCovered : right.facts.mentions ⊆ atoms :=
        List.subset_append_of_subset_right _ (List.subset_append_right _ _)
      apply Degree.ext_units
      · apply Degree.units_eq_of_le_iff
        intro level positive
        rw [le_necessity_iff leftCovered formulaCovered constant positive,
          le_necessity_iff rightCovered formulaCovered constant positive]
        exact FactSet.sustains_congr same
      · rw [negativeZero_necessity constant, negativeZero_necessity constant]

theorem value_possibility_congr {left right : FactBase}
    (same : left.facts.membership = right.facts.membership)
    (formula : Formula) :
    (left.possibility formula).value = (right.possibility formula).value := by
  cases constant : formula.constant? with
  | some degree => simp [possibility, constant]
  | none =>
      rw [value_possibility constant, value_possibility constant,
        value_necessity_congr same]

/-- What is fully true in more worlds is at least as necessary. -/
theorem value_necessity_mono {base : FactBase} {formula other : Formula}
    {atoms : List Atom} (factsCovered : base.facts.mentions ⊆ atoms)
    (formulaCovered : formula.mentions ⊆ atoms)
    (otherCovered : other.mentions ⊆ atoms)
    (nonconstant : formula.constant? = none)
    (otherNonconstant : other.constant? = none)
    (implied : ∀ world ∈ World.all atoms,
      (formula.truth world).isOne = true →
        (other.truth world).isOne = true) :
    (base.necessity formula).value ≤ (base.necessity other).value := by
  apply Degree.le_of_pos
  intro positive
  apply (le_necessity_iff factsCovered otherCovered otherNonconstant
    positive).mpr
  apply FactSet.Sustains.mono implied
  exact (le_necessity_iff factsCovered formulaCovered nonconstant
    positive).mp (Nat.le_refl _)

end FactBase

end Possibilistic
