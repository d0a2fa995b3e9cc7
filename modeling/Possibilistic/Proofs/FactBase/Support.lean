import Possibilistic.Proofs.FactBase.Necessity
import Possibilistic.Proofs.World.Enumeration

/-!
# Support in the worlds of a vocabulary

What a world says of an entailment depends on the atoms of the facts and of the
formula.  The worlds of all vocabularies with these atoms therefore offer the
same supports.  The degree of entailment is the least of them, although the
search looks at the smallest vocabulary and leaves at zero.
-/

namespace Possibilistic

/-- A crisp interpretation of just these atoms. -/
structure Interpretation.IsWorldOf (world : Interpretation)
    (atoms : List Atom) : Prop where
  crisp : world.isCrisp = true
  sameAtoms : world.atoms = Atom.vocabulary atoms

namespace World

theorem isWorldOf_of_mem_all {atoms : List Atom} {world : Interpretation}
    (inAll : world ∈ all (Atom.vocabulary atoms)) : world.IsWorldOf atoms := by
  obtain ⟨crisp, sameAtoms⟩ := (enumerates_all atoms).crisp world inAll
  exact ⟨crisp, sameAtoms⟩

end World

theorem Interpretation.IsWorldOf.truth_isCrisp {world : Interpretation}
    {atoms : List Atom} (isWorld : world.IsWorldOf atoms) {atom : Atom}
    (member : atom ∈ atoms) (nonconstant : atom.constant? = none) :
    (world.truth atom).IsCrisp := by
  have assigned : world.truth atom = world.assigned atom := by
    simp only [truth, nonconstant]
  rw [assigned]
  apply isCrisp_iff.mp isWorld.crisp
  rw [isWorld.sameAtoms]
  exact Atom.mem_vocabulary.mpr member

namespace FactBase

/-- What entailment measures in the crisp interpretations of just these
atoms. -/
def supports (base : FactBase) (formula : Formula) (atoms : List Atom) :
    Set Degree :=
  {degree | ∃ world : Interpretation,
    world.IsWorldOf atoms ∧ base.support formula world = degree}

/-- The least support in the worlds of a vocabulary, with none left out. -/
def leastSupport (base : FactBase) (formula : Formula) (atoms : List Atom) :
    Degree :=
  Degree.minimum ((World.all atoms).map (base.support formula))

theorem negativeZero_support (base : FactBase) (formula : Formula)
    (world : Interpretation) :
    (base.support formula world).negativeZero = false :=
  Degree.negativeZero_max rfl _

theorem negativeZero_leastSupport (base : FactBase) (formula : Formula)
    (atoms : List Atom) :
    (base.leastSupport formula atoms).negativeZero = false := by
  apply Degree.negativeZero_minimum
  rw [List.forall_mem_map]
  exact fun world _ => base.negativeZero_support formula world

theorem le_leastSupport_iff {base : FactBase} {formula : Formula}
    {atoms : List Atom} {level : Degree} :
    level ≤ base.leastSupport formula atoms ↔
      ∀ world ∈ World.all atoms, level ≤ base.support formula world := by
  rw [leastSupport, Degree.le_minimum_iff, List.forall_mem_map]

variable {base : FactBase} {formula : Formula} {atoms : List Atom}

theorem constant?_of_mem_vocabularyWith {atom : Atom}
    (member : atom ∈ base.vocabularyWith formula) : atom.constant? = none := by
  rcases List.mem_append.mp (Atom.mem_vocabulary.mp member) with
    inFacts | inFormula
  · obtain ⟨_, _, mentioned⟩ := FactSet.mem_mentions.mp inFacts
    exact Formula.constant?_of_mem_mentions mentioned
  · exact Formula.constant?_of_mem_mentions inFormula

theorem support_eq_of_units {left right : Interpretation}
    (agree : ∀ other : Formula, other.mentions ⊆ base.vocabularyWith formula →
      (other.truth left).units = (other.truth right).units) :
    base.support formula left = base.support formula right := by
  have factsAgree : base.facts.truth left = base.facts.truth right := by
    apply FactSet.truth_eq_of_units
    intro item member
    apply agree
    exact List.Subset.trans (FactSet.mentions_subset_of_mem member)
      (mentions_facts_subset base formula)
  apply Degree.ext_units
  · rw [support, support, Degree.units_max, Degree.units_max, factsAgree,
      agree formula (mentions_formula_subset base formula)]
  · rw [negativeZero_support, negativeZero_support]

section

variable (factsCovered : base.facts.mentions ⊆ atoms)
  (formulaCovered : formula.mentions ⊆ atoms)

include factsCovered formulaCovered

/-- All covering vocabularies offer the supports that the smallest one does. -/
theorem supports_eq :
    base.supports formula atoms =
      {degree | degree ∈ (World.all (base.vocabularyWith formula)).map
        (base.support formula)} := by
  have covered := vocabularyWith_subset factsCovered formulaCovered
  ext degree
  simp only [supports, Set.mem_ofPred_eq, List.mem_map]
  constructor
  · rintro ⟨world, isWorld, equality⟩
    -- The interpretation may assign negative zeros, which its twin does not.
    obtain ⟨twin, twinInAll, agree⟩ :=
      World.exists_twin (fun _ => constant?_of_mem_vocabularyWith)
        fun atom member => isWorld.truth_isCrisp (covered member)
          (constant?_of_mem_vocabularyWith member)
    exact ⟨twin, twinInAll, (support_eq_of_units agree).symm.trans equality⟩
  · rintro ⟨world, inAll, equality⟩
    obtain ⟨other, otherInAll, agree⟩ :=
      World.exists_agreeing (Atom.vocabulary atoms) inAll
    refine ⟨other, World.isWorldOf_of_mem_all otherInAll, ?_⟩
    rw [← equality]
    exact support_congr fun atom member =>
      agree atom member (Atom.mem_vocabulary.mpr (covered member))

theorem isLeast_entailment :
    IsLeast (base.supports formula atoms) (base.entailment formula) := by
  rw [supports_eq factsCovered formulaCovered, entailment_eq_minimum]
  apply Degree.isLeast_minimum
  exact mt List.map_eq_nil_iff.mp (World.all_ne_nil _)

theorem entailment_eq_leastSupport :
    base.entailment formula = base.leastSupport formula atoms := by
  apply Degree.ext_units
  · apply Degree.units_eq_of_le_iff
    intro level _
    rw [le_entailment_iff factsCovered formulaCovered, le_leastSupport_iff]
  · rw [negativeZero_leastSupport, entailment_eq_minimum]
    exact base.negativeZero_leastSupport formula _

end

/-- The degree to which facts entail a formula is the least that any crisp
interpretation supports it to, over every vocabulary with the atoms of both.
Visiting all its worlds gives no other degree than leaving early, and neither do
further atoms. -/
theorem models_is_least_support {base : FactBase} {formula : Formula}
    {atoms : List Atom} (factsCovered : base.facts.mentions ⊆ atoms)
    (formulaCovered : formula.mentions ⊆ atoms) :
    IsLeast (base.supports formula atoms) (base.models formula).value ∧
      (base.models formula).value = base.leastSupport formula atoms ∧
      ∀ larger : List Atom, atoms ⊆ larger →
        base.leastSupport formula larger = base.leastSupport formula atoms := by
  have least := entailment_eq_leastSupport factsCovered formulaCovered
  rw [value_models]
  refine ⟨isLeast_entailment factsCovered formulaCovered, least, ?_⟩
  intro larger included
  rw [← least]
  exact (entailment_eq_leastSupport
    (List.Subset.trans factsCovered included)
    (List.Subset.trans formulaCovered included)).symm

/-- Half certain that it rains at least a little and certain that rain wets the
road, the facts entail to one half that the road is wet, and neither the cold
nor the snow makes a difference. -/
theorem models_is_least_support_drizzle :
    let rain : Formula := .atom ⟨"rain"⟩
    let wet : Formula := .atom ⟨"wet"⟩
    let atoms : List Atom := [⟨"wet"⟩, ⟨"cold"⟩, ⟨"rain"⟩]
    let larger : List Atom := ⟨"snow"⟩ :: atoms
    let base : FactBase :=
      { facts := (FactSet.empty.tell (rain.conj (.atom ⟨"0.25"⟩))
          Degree.half).tell (rain.neg.disj wet) Degree.one
        counted := true
        warnAbove := 20 }
    base.facts.mentions ⊆ atoms ∧ wet.mentions ⊆ atoms ∧ atoms ⊆ larger ∧
      (base.models wet).value = Degree.half ∧
      IsLeast (base.supports wet atoms) Degree.half ∧
      base.leastSupport wet atoms = Degree.half ∧
      base.leastSupport wet larger = Degree.half := by
  intro rain wet atoms larger base
  have factsCovered : base.facts.mentions ⊆ atoms := by decide +kernel
  have formulaCovered : wet.mentions ⊆ atoms := by decide +kernel
  have included : atoms ⊆ larger := List.subset_cons_self _ _
  have answer : (base.models wet).value = Degree.half := by decide +kernel
  obtain ⟨least, visited, enlarged⟩ :=
    models_is_least_support factsCovered formulaCovered
  rw [answer] at least visited
  exact ⟨factsCovered, formulaCovered, included, answer, least, visited.symm,
    (enlarged larger included).trans visited.symm⟩

end FactBase

end Possibilistic
