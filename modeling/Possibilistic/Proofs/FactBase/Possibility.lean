import Possibilistic.Proofs.Distribution.Measures
import Possibilistic.Proofs.FactBase.Classical

/-!
# Necessity and possibility as measures of worlds

Classical facts encode the distribution that gives every world its truth.  The
level cuts compute the measures of this distribution: a formula is as necessary
as the least excluded world that fails it, and as possible as the truest world
that satisfies it.
-/

namespace Possibilistic

namespace FactBase

theorem value_possibility {base : FactBase} {formula : Formula}
    (nonconstant : formula.constant? = none) :
    (base.possibility formula).value =
      (base.necessity formula.negated).value.complement := by
  simp only [possibility, nonconstant]
  rfl

section

variable {facts : FactSet} {formula : Formula} {distribution : Distribution}
  (degreeAt_eq : ∀ number, number < World.count distribution.atoms →
    distribution.degreeAt number =
      (facts.exclusion
        (World.numbered distribution.atoms (number : Nat))).complement)
  (satisfied : ∀ world ∈ World.all distribution.atoms,
    (formula.negated.truth world).isZero = true ↔
      (formula.truth world).isOne = true)

include degreeAt_eq satisfied

theorem complement_leastExclusion_le_possibility :
    (facts.leastExclusion distribution.atoms formula.negated).complement ≤
      distribution.possibility formula := by
  rcases FactSet.leastExclusion_eq_one_or_mem facts distribution.atoms
    formula.negated with none | ⟨world, inAll, fails, equality⟩
  · have vanishing : Degree.one.complement.isZero = true :=
      Degree.complement_isZero_iff.mpr (Degree.isOne_iff.mpr rfl)
    rw [none, Degree.le_iff, Degree.isZero_iff.mp vanishing]
    exact Nat.zero_le _
  · obtain ⟨number, below, isWorld⟩ := World.mem_all.mp inAll
    rw [← equality]
    apply Degree.le_of_pos
    intro positive
    apply (Distribution.le_greatest_iff positive).mpr
    refine ⟨number, below, ?_, ?_⟩
    · rw [isWorld]
      exact (satisfied world inAll).mp fails
    · rw [degreeAt_eq number below, isWorld]
      exact Nat.le_refl _

theorem possibility_le_complement_leastExclusion :
    distribution.possibility formula ≤
      (facts.leastExclusion distribution.atoms formula.negated).complement := by
  apply Degree.le_of_pos
  intro positive
  obtain ⟨number, below, holds, reached⟩ :=
    (Distribution.le_greatest_iff positive).mp (Nat.le_refl _)
  have inAll := World.mem_all.mpr ⟨number, below, rfl⟩
  rw [degreeAt_eq number below] at reached
  have least : facts.leastExclusion distribution.atoms formula.negated ≤
      facts.exclusion
        (World.numbered distribution.atoms (number : Nat)) :=
    FactSet.le_leastExclusion_iff.mp (Nat.le_refl _) _ inAll
      ((satisfied _ inAll).mpr holds)
  exact Nat.le_trans reached (Degree.complement_antitone least)

end

section

variable {base : FactBase} {formula : Formula} {atoms : List Atom}
  (factsClassical : base.facts.isClassical = true)
  (formulaClassical : formula.isClassical = true)
  (nonconstant : formula.constant? = none)
  (factsCovered : base.facts.mentions ⊆ atoms)
  (formulaCovered : formula.mentions ⊆ atoms)

include factsClassical formulaClassical nonconstant factsCovered formulaCovered

theorem value_necessity_eq_leastExclusion :
    (base.necessity formula).value =
      base.facts.leastExclusion atoms formula := by
  apply Degree.ext_units
  · apply Degree.units_eq_of_le_iff
    intro level positive
    rw [FactSet.le_leastExclusion_iff]
    exact le_necessity_iff_exclusion factsClassical formulaClassical
      factsCovered formulaCovered nonconstant positive
  · rw [negativeZero_necessity nonconstant,
      FactSet.negativeZero_leastExclusion]

/-- The possibility of a formula is the greatest truth of the facts in a world
that satisfies it. -/
theorem value_possibility_eq_distribution
    (negatedNonconstant : formula.negated.constant? = none)
    {distribution : Distribution} (vocabulary : distribution.atoms = atoms)
    (degrees : distribution.degrees =
      distribution.worlds.map base.facts.truth) :
    (base.possibility formula).value = distribution.possibility formula := by
  have necessity_eq : (base.necessity formula.negated).value =
      base.facts.leastExclusion atoms formula.negated :=
    value_necessity_eq_leastExclusion factsClassical
      ((Formula.isClassical_negated formula).trans formulaClassical)
      negatedNonconstant factsCovered
      (Formula.mentions_negated formula ▸ formulaCovered)
  subst vocabulary
  have degreeAt_eq : ∀ number, number < World.count distribution.atoms →
      distribution.degreeAt number = (base.facts.exclusion
        (World.numbered distribution.atoms (number : Nat))).complement := by
    intro number below
    rw [Distribution.degreeAt_of_degrees_eq degrees below]
    exact FactSet.truth_eq_complement_exclusion
      (World.mem_all.mpr ⟨number, below, rfl⟩) factsClassical factsCovered
  have satisfied : ∀ world ∈ World.all distribution.atoms,
      (formula.negated.truth world).isZero = true ↔
        (formula.truth world).isOne = true := fun world inAll =>
    Formula.truth_negated_isZero_iff inAll formulaClassical formulaCovered
  rw [value_possibility nonconstant, necessity_eq]
  apply Degree.ext_units
  · apply Nat.le_antisymm
    · exact complement_leastExclusion_le_possibility degreeAt_eq satisfied
    · exact possibility_le_complement_leastExclusion degreeAt_eq satisfied
  · exact (Distribution.negativeZero_greatest _ _).symm

end

/-- Level cuts compute the measures of the distribution that classical facts
encode, over every vocabulary that covers the facts and the formula. -/
theorem necessity_and_possibility_measure_worlds {base : FactBase}
    {formula : Formula} {atoms : List Atom}
    (factsClassical : base.facts.isClassical = true)
    (formulaClassical : formula.isClassical = true)
    (nonconstant : formula.constant? = none)
    (factsCovered : base.facts.mentions ⊆ atoms)
    (formulaCovered : formula.mentions ⊆ atoms) :
    (base.necessity formula).value =
        base.facts.leastExclusion atoms formula ∧
      (formula.negated.constant? = none →
        ∀ distribution : Distribution, distribution.atoms = atoms →
          distribution.degrees =
            distribution.worlds.map base.facts.truth →
          (base.possibility formula).value =
            distribution.possibility formula) := by
  constructor
  · exact value_necessity_eq_leastExclusion factsClassical formulaClassical
      nonconstant factsCovered formulaCovered
  · intro negatedNonconstant distribution vocabulary degrees
    exact value_possibility_eq_distribution factsClassical formulaClassical
      nonconstant factsCovered formulaCovered negatedNonconstant vocabulary
      degrees

/-- Half certain of rain and certain that rain wets the road, one is half
certain that the road is wet. -/
theorem necessity_and_possibility_measure_worlds_wet :
    let rain : Formula := .atom ⟨"rain"⟩
    let wet : Formula := .atom ⟨"wet"⟩
    let atoms : List Atom := [⟨"cold"⟩, ⟨"rain"⟩, ⟨"wet"⟩]
    let base : FactBase :=
      { facts := (FactSet.empty.tell rain Degree.half).tell
          (rain.neg.disj wet) Degree.one
        counted := true
        warnAbove := 20 }
    let distribution :=
      (Distribution.constant atoms Degree.zero).mapWorlds base.facts.truth
    base.facts.leastExclusion atoms wet = Degree.half ∧
      (base.necessity wet).value = base.facts.leastExclusion atoms wet ∧
      (base.possibility wet).value = distribution.possibility wet := by
  intro rain wet atoms base distribution
  have measured := @necessity_and_possibility_measure_worlds base wet atoms
    (by decide +kernel) (by decide +kernel) (by decide +kernel)
    (by decide +kernel) (by decide +kernel)
  refine ⟨by decide +kernel, measured.1, ?_⟩
  exact measured.2 (by decide +kernel) distribution rfl rfl

end FactBase

end Possibilistic
