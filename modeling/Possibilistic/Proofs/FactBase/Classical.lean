import Possibilistic.Proofs.FactBase.Necessity
import Possibilistic.Proofs.FactSet.Exclusion

/-!
# Necessity over classical facts

The necessity that classical facts give to a classical formula is the least
degree to which they exclude a world that fails the formula.
-/

namespace Possibilistic

namespace FactBase

section

variable {base : FactBase} {formula : Formula} {atoms : List Atom}
  (factsClassical : base.facts.isClassical = true)
  (formulaClassical : formula.isClassical = true)
  (factsCovered : base.facts.mentions ⊆ atoms)
  (formulaCovered : formula.mentions ⊆ atoms)

include factsClassical formulaClassical factsCovered formulaCovered

theorem sustains_iff {level : Degree} (positive : 0 < level.units) :
    base.facts.Sustains atoms formula level ↔
      ∀ world ∈ World.all atoms, (formula.truth world).isZero = true →
        level ≤ base.facts.exclusion world := by
  apply forall₂_congr
  intro world inAll
  have crisp : (formula.truth world).IsCrisp :=
    Formula.truth_isCrisp inAll formulaClassical formulaCovered
  have denied : (∃ item ∈ base.facts.items, level ≤ item.2 ∧
      (item.1.truth world).isNegligible = true) ↔
      level ≤ base.facts.exclusion world := by
    rw [FactSet.le_exclusion_iff positive]
    apply exists_congr
    intro item
    apply and_congr_right
    intro present
    rw [and_comm]
    apply and_congr_left
    intro _
    exact (FactSet.truth_isCrisp_of_mem inAll factsClassical factsCovered
      present).complement_isOne_iff
  rw [denied]
  rcases crisp with fails | holds
  · have notHolds : (formula.truth world).isOne ≠ true := fun holds => by
      rw [Degree.isZero_eq_false_of_isOne holds] at fails
      cases fails
    simp [fails, notHolds]
  · simp [holds, Degree.isZero_eq_false_of_isOne holds]

theorem le_necessity_iff_exclusion (nonconstant : formula.constant? = none)
    {level : Degree} (positive : 0 < level.units) :
    level ≤ (base.necessity formula).value ↔
      ∀ world ∈ World.all atoms, (formula.truth world).isZero = true →
        level ≤ base.facts.exclusion world :=
  (le_necessity_iff factsCovered formulaCovered nonconstant positive).trans
    (sustains_iff factsClassical formulaClassical factsCovered formulaCovered
      positive)

/-- The necessity of a formula is at most the exclusion of a world that fails
it, also for constants. -/
theorem necessity_le_exclusion {world : Interpretation}
    (inAll : world ∈ World.all atoms)
    (fails : (formula.truth world).isZero = true) :
    (base.necessity formula).value ≤ base.facts.exclusion world := by
  cases known : formula.constant? with
  | some degree =>
      have vanishing : degree.isZero = true := by
        cases formula with
        | atom symbol =>
            simp only [Formula.constant?] at known
            simpa [Formula.truth, Interpretation.truth, known] using fails
        | neg operand => cases known
        | binary connective left right => cases known
      rw [value_necessity_of_constant known, Degree.le_iff,
        Degree.isZero_iff.mp vanishing]
      exact Nat.zero_le _
  | none =>
      apply Degree.le_of_pos
      intro positive
      exact (le_necessity_iff_exclusion factsClassical formulaClassical
        factsCovered formulaCovered known positive).mp (Nat.le_refl _)
          world inAll fails

end

/-- A classical fact that is not a constant is as necessary as its membership
says, whatever the other facts are. -/
theorem membership_le_necessity {base : FactBase} {fact : Formula}
    (classical : fact.isClassical = true)
    (nonconstant : fact.constant? = none) :
    base.facts.membership fact ≤ (base.necessity fact).value := by
  apply Degree.le_of_pos
  intro positive
  let atoms := base.facts.mentions ++ fact.mentions
  have factsCovered : base.facts.mentions ⊆ atoms :=
    List.subset_append_left _ _
  have covered : fact.mentions ⊆ atoms :=
    List.subset_append_right _ _
  apply (le_necessity_iff factsCovered covered nonconstant positive).mpr
  intro world inAll
  have crisp : (fact.truth world).IsCrisp :=
    Formula.truth_isCrisp inAll classical covered
  rcases crisp with fails | holds
  · right
    exact ⟨_, FuzzySet.mem_items_of_membership_pos positive, Nat.le_refl _,
      Degree.complement_isOne_of_isZero fails⟩
  · exact .inl holds

end FactBase

end Possibilistic
