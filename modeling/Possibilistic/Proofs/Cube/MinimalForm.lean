import Possibilistic.Proofs.Cube.Completion
import Possibilistic.Proofs.Cube.Meaning
import Possibilistic.Proofs.World.Crisp

/-!
# The minimal disjunctive form

The minimal form of a formula is found without a fault and mentions no further
atoms.  It is decided wherever these are, and it holds in the crisp
interpretations in which the formula is fully true: a truth between false and
true counts as false.
-/

namespace Possibilistic

namespace Formula

/-- The worlds of the formula's own vocabulary in which it is fully true. -/
def models (formula : Formula) : List Interpretation :=
  (World.all formula.atoms).filter fun world => (formula.truth world).isOne

theorem minimalDnf_eq (formula : Formula) :
    formula.minimalDnf = Cube.disjunction
      (Cube.minimize (formula.models.map Cube.ofInterpretation)) :=
  rfl

theorem isVocabulary_atoms (formula : Formula) :
    Atom.IsVocabulary formula.atoms where
  ascending := Atom.ascending_vocabulary _
  nonconstant _ member :=
    constant?_of_mem_mentions (Atom.mem_vocabulary.mp member)

theorem models_subset (formula : Formula) :
    formula.models ⊆ World.all formula.atoms :=
  List.filter_sublist.subset

theorem minimalDnf_over (formula : Formula) :
    formula.minimalDnf.isClassical = true ∧
      formula.minimalDnf.mentions ⊆ formula.atoms := by
  have vocabulary := formula.isVocabulary_atoms
  rw [minimalDnf_eq]
  exact Cube.disjunction_over vocabulary.nonconstant
    (Cube.over_minimize (Cube.over_ofInterpretation vocabulary.ascending
      formula.models_subset))

/-- Two worlds with the same point are the same, so the minimal form holds in
the models and in no other world. -/
theorem truth_minimalDnf_isOne_iff {formula : Formula} {world : Interpretation}
    (inAll : world ∈ World.all formula.atoms) :
    (formula.minimalDnf.truth world).isOne = true ↔
      (formula.truth world).isOne = true := by
  have vocabulary := formula.isVocabulary_atoms
  rw [minimalDnf_eq, Cube.truth_minimize_isOne_iff vocabulary.ascending
    formula.models_subset vocabulary.nonconstant inAll]
  constructor
  · rintro ⟨other, isModel, samePoint⟩
    obtain ⟨otherInAll, holds⟩ := List.mem_filter.mp isModel
    obtain ⟨number, inRange, rfl⟩ := World.mem_all.mp inAll
    obtain ⟨otherNumber, otherInRange, rfl⟩ := World.mem_all.mp otherInAll
    rw [← Cube.eq_of_ofInterpretation_eq vocabulary.ascending
      vocabulary.nonconstant otherInRange inRange samePoint]
    exact holds
  · intro holds
    exact ⟨world, List.mem_filter.mpr ⟨inAll, holds⟩, rfl⟩

/-- Minimising comes to an end without a fault, in a form over the atoms of the
formula that is true in the crisp interpretations of these where the formula is
fully true, and false in all others. -/
theorem minimalDnf_is_exact_on_crisp_interpretations (formula : Formula) :
    (∃ cover,
      Cube.FindsCover (formula.models.map Cube.ofInterpretation) cover ∧
        formula.minimalDnf = Cube.disjunction cover) ∧
    formula.minimalDnf.atoms ⊆ formula.atoms ∧
    ∀ interpretation : Interpretation,
      (∀ atom ∈ formula.atoms, (interpretation.truth atom).IsCrisp) →
        if (formula.truth interpretation).isOne then
          (formula.minimalDnf.truth interpretation).isOne = true
        else (formula.minimalDnf.truth interpretation).isZero = true := by
  have vocabulary := formula.isVocabulary_atoms
  obtain ⟨classical, covered⟩ := formula.minimalDnf_over
  refine ⟨⟨_, Cube.findsCover_minimize (Cube.over_ofInterpretation
    vocabulary.ascending formula.models_subset), rfl⟩, ?_, ?_⟩
  · exact fun atom member => covered (Atom.mem_vocabulary.mp member)
  · intro interpretation crisp
    obtain ⟨world, inAll, sameTruth⟩ :=
      World.exists_twin vocabulary.nonconstant crisp
    have sameFormula := sameTruth formula fun _ mentioned =>
      Atom.mem_vocabulary.mpr mentioned
    have sameMinimal := sameTruth formula.minimalDnf covered
    have exact := truth_minimalDnf_isOne_iff inAll
    have decided := truth_isCrisp inAll classical covered
    simp only [Degree.isOne, Degree.isZero, sameFormula, sameMinimal]
    split
    · rename_i holds
      exact exact.mpr holds
    · rename_i fails
      exact decided.resolve_right fun full => fails (exact.mp full)

/-- It rains or not, and if it rains the half truth counts for nothing: all that
is left is the cold. -/
theorem minimalDnf_is_exact_on_crisp_interpretations_cold :
    let rain : Formula := .atom ⟨"rain"⟩
    let cold : Formula := .atom ⟨"cold"⟩
    let formula := ((rain.xor (.atom ⟨"1"⟩)).disj rain).conj
      (cold.disj (rain.conj (.atom ⟨"0.5"⟩)))
    let interpretation := Interpretation.ofList
      [(⟨"rain"⟩, Degree.one), (⟨"cold"⟩, Degree.zero)]
    formula.minimalDnf = cold ∧
      (∀ atom ∈ formula.atoms, (interpretation.truth atom).IsCrisp) ∧
      (formula.truth interpretation).isZero = false ∧
      (formula.minimalDnf.truth interpretation).isZero = true := by
  intro rain cold formula interpretation
  have crisp : ∀ atom ∈ formula.atoms,
      (interpretation.truth atom).IsCrisp := by
    simp only [Degree.IsCrisp]
    decide +kernel
  have exact := (minimalDnf_is_exact_on_crisp_interpretations formula).2.2
    interpretation crisp
  have partly : (formula.truth interpretation).isOne = false := by
    decide +kernel
  rw [partly, if_neg Bool.false_ne_true] at exact
  have minimal : formula.minimalDnf = cold := by decide +kernel
  have notFalse : (formula.truth interpretation).isZero = false := by
    decide +kernel
  exact ⟨minimal, crisp, notFalse, exact⟩

end Formula

end Possibilistic
