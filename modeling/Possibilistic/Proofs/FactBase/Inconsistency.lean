import Possibilistic.Proofs.FactBase.Possibility

/-!
# The degree of inconsistency

Classical facts are inconsistent as far as they exclude every world.  Their
consistency is the complement of this degree, whatever vocabulary covers the
facts, and the degree is what they make a formula and its opposite necessary to
together, whatever the formula is.
-/

namespace Possibilistic

namespace FactSet

/-- The least exclusion of a world of the vocabulary. -/
def inconsistency (facts : FactSet) (atoms : List Atom) : Degree :=
  Degree.minimum ((World.all atoms).map facts.exclusion)

theorem consistency_eq_maximum (facts : FactSet) :
    facts.consistency =
      Degree.maximum ((World.all facts.atoms).map facts.truth) := by
  rw [consistency, World.search_eq_foldl]
  · simp only [Degree.maximum, List.foldl_map]
  · intro greatest world full
    change (if greatest < _ then _ else greatest) = greatest
    rw [if_neg]
    rw [Degree.lt_iff, Degree.isOne_iff.mp full]
    exact Nat.not_lt_of_le (facts.truth world).atMostOne

variable {facts : FactSet} {atoms : List Atom}

theorem le_inconsistency_iff {level : Degree} :
    level ≤ facts.inconsistency atoms ↔
      ∀ world ∈ World.all atoms, level ≤ facts.exclusion world := by
  rw [inconsistency, Degree.le_minimum_iff, List.forall_mem_map]

/-- Consistency is the greatest truth in the worlds of any vocabulary that
covers the facts. -/
theorem le_consistency_iff (covered : facts.mentions ⊆ atoms) {level : Degree}
    (positive : 0 < level.units) :
    level ≤ facts.consistency ↔
      ∃ world ∈ World.all atoms, level ≤ facts.truth world := by
  rw [consistency_eq_maximum, Degree.le_maximum_iff positive]
  simp only [List.mem_map, exists_exists_and_eq_and]
  constructor
  · intro ⟨world, inAll, reached⟩
    obtain ⟨other, otherInAll, agree⟩ := World.exists_agreeing atoms inAll
    refine ⟨other, otherInAll, ?_⟩
    rwa [truth_congr fun atom mentioned =>
      agree atom (Atom.mem_vocabulary.mpr mentioned) (covered mentioned)]
  · intro ⟨world, inAll, reached⟩
    obtain ⟨other, otherInAll, agree⟩ :=
      World.exists_agreeing facts.atoms inAll
    refine ⟨other, otherInAll, ?_⟩
    rwa [truth_congr fun atom mentioned =>
      agree atom (covered mentioned) (Atom.mem_vocabulary.mpr mentioned)]

section

variable (classical : facts.isClassical = true)
  (covered : facts.mentions ⊆ atoms)

include classical covered

/-- The world that is excluded least is the truest. -/
theorem consistency_eq_complement_inconsistency :
    facts.consistency = (facts.inconsistency atoms).complement := by
  apply Degree.ext_units
  · apply Degree.units_eq_of_le_iff
    intro level positive
    rw [le_consistency_iff covered positive]
    constructor
    · intro ⟨world, inAll, reached⟩
      rw [truth_eq_complement_exclusion inAll classical covered] at reached
      have least : facts.inconsistency atoms ≤ facts.exclusion world :=
        le_inconsistency_iff.mp (Nat.le_refl _) world inAll
      exact Nat.le_trans reached (Degree.complement_antitone least)
    · intro reached
      have attained : facts.inconsistency atoms ∈
          (World.all atoms).map facts.exclusion :=
        (Degree.isLeast_minimum
          (mt List.map_eq_nil_iff.mp (World.all_ne_nil atoms))).1
      obtain ⟨world, inAll, equality⟩ := List.mem_map.mp attained
      refine ⟨world, inAll, ?_⟩
      rw [truth_eq_complement_exclusion inAll classical covered, equality]
      exact reached
  · rw [consistency_eq_maximum]
    exact Degree.negativeZero_maximum _

end

end FactSet

namespace FactBase

/-- A formula and its opposite are together as necessary as every world is
excluded, since each world fails one of them. -/
theorem units_min_necessity_negated {base : FactBase} {formula : Formula}
    {atoms : List Atom} (factsClassical : base.facts.isClassical = true)
    (formulaClassical : formula.isClassical = true)
    (factsCovered : base.facts.mentions ⊆ atoms)
    (formulaCovered : formula.mentions ⊆ atoms)
    (nonconstant : formula.constant? = none)
    (negatedNonconstant : formula.negated.constant? = none) :
    (min (base.necessity formula).value
        (base.necessity formula.negated).value).units =
      (base.facts.inconsistency atoms).units := by
  have negatedClassical : formula.negated.isClassical = true :=
    (Formula.isClassical_negated formula).trans formulaClassical
  have negatedCovered : formula.negated.mentions ⊆ atoms :=
    Formula.mentions_negated formula ▸ formulaCovered
  apply Degree.units_eq_of_le_iff
  intro level positive
  rw [Degree.le_min_iff,
    le_necessity_iff_exclusion factsClassical formulaClassical factsCovered
      formulaCovered nonconstant positive,
    le_necessity_iff_exclusion factsClassical negatedClassical factsCovered
      negatedCovered negatedNonconstant positive,
    FactSet.le_inconsistency_iff]
  constructor
  · intro ⟨excludedFailing, excludedHolding⟩ world inAll
    have crisp : (formula.truth world).IsCrisp :=
      Formula.truth_isCrisp inAll formulaClassical formulaCovered
    rcases crisp with fails | holds
    · exact excludedFailing world inAll fails
    · apply excludedHolding world inAll
      exact (Formula.truth_negated_isZero_iff inAll formulaClassical
        formulaCovered).mpr holds
  · intro excluded
    exact ⟨fun world inAll _ => excluded world inAll,
      fun world inAll _ => excluded world inAll⟩

/-- The consistency of classical facts is the complement of what they make a
classical formula and its opposite necessary to, whatever the formula says and
whatever atoms it brings along. -/
theorem consistency_complements_shared_necessity {base : FactBase}
    {formula : Formula} (factsClassical : base.facts.isClassical = true)
    (formulaClassical : formula.isClassical = true)
    (nonconstant : formula.constant? = none)
    (negatedNonconstant : formula.negated.constant? = none) :
    base.facts.consistency =
      (min (base.necessity formula).value
        (base.necessity formula.negated).value).complement := by
  let atoms := base.facts.mentions ++ formula.mentions
  have factsCovered : base.facts.mentions ⊆ atoms :=
    List.subset_append_left _ _
  have formulaCovered : formula.mentions ⊆ atoms :=
    List.subset_append_right _ _
  rw [FactSet.consistency_eq_complement_inconsistency factsClassical
    factsCovered]
  apply Degree.complement_congr
  exact (units_min_necessity_negated factsClassical formulaClassical
    factsCovered formulaCovered nonconstant negatedNonconstant).symm

/-- Certain that rain wets the road, and half certain both that it rains and
that the road is dry, one is half inconsistent, as any other question shows. -/
theorem consistency_complements_shared_necessity_cold :
    let rain : Formula := .atom ⟨"rain"⟩
    let wet : Formula := .atom ⟨"wet"⟩
    let cold : Formula := .atom ⟨"cold"⟩
    let base : FactBase :=
      { facts := ((FactSet.empty.tell (rain.neg.disj wet) Degree.one).tell rain
          Degree.half).tell wet.neg Degree.half
        counted := true
        warnAbove := 20 }
    base.facts.isClassical = true ∧ cold.isClassical = true ∧
      (base.necessity cold).value = Degree.half ∧
      base.facts.consistency =
        (min (base.necessity cold).value
          (base.necessity cold.negated).value).complement := by
  intro rain wet cold base
  have factsClassical : base.facts.isClassical = true := by decide +kernel
  exact ⟨factsClassical, by decide +kernel, by decide +kernel,
    consistency_complements_shared_necessity factsClassical
      (by decide +kernel) (by decide +kernel) rfl⟩

end FactBase

end Possibilistic
