import Possibilistic.FactBase.Necessity
import Possibilistic.Proofs.FactSet.Truth

/-!
# Entailment over a covering vocabulary

An entailment check visits the worlds of the smallest vocabulary and may leave
early; its value is the least over all worlds of any covering vocabulary.  Full
entailment by a cut, and by the graded facts themselves, both say that every
world that fails the formula is denied by a fact of sufficient degree.
-/

namespace Possibilistic

namespace World

/-- A search that may leave once nothing changes is a fold over all worlds. -/
theorem search_eq_foldl {β : Type} {done : β → Bool}
    {step : β → Interpretation → β}
    (settled : ∀ result world, done result = true → step result world = result)
    (atoms : List Atom) (start : β) :
    search atoms done step start = (all atoms).foldl step start := by
  have unchanged : ∀ (worlds : List Interpretation) (result : β),
      done result = true → worlds.foldl step result = result := by
    intro worlds result finished
    induction worlds with
    | nil => rfl
    | cons world rest ih => rw [List.foldl_cons, settled _ _ finished, ih]
  have general : ∀ (remaining next : Nat) (result : β),
      foldUntil done (fun result number => step result (numbered atoms number))
          remaining next result =
        ((List.range' next remaining).map fun number : Nat =>
          numbered atoms number).foldl step result := by
    intro remaining
    induction remaining with
    | zero =>
        intro next result
        rfl
    | succ remaining ih =>
        intro next result
        rw [List.range'_succ, List.map_cons, List.foldl_cons,
          foldUntil]
        split
        · rename_i finished
          rw [settled _ _ finished, unchanged _ _ finished]
        · exact ih (next + 1) _
  rw [search, general, all, firstWorlds, Nat.min_self, List.range_eq_range']

end World

namespace FactSet

/-- Every world of the vocabulary makes the formula true or fails a fact whose
degree reaches the level. -/
def Sustains (facts : FactSet) (atoms : List Atom) (formula : Formula)
    (level : Degree) : Prop :=
  ∀ world ∈ World.all atoms, (formula.truth world).isOne = true ∨
    ∃ item ∈ facts.items, level ≤ item.2 ∧
      (item.1.truth world).isNegligible = true

theorem Sustains.antitone {facts : FactSet} {atoms : List Atom}
    {formula : Formula} {low high : Degree}
    (sustained : facts.Sustains atoms formula high) (ordered : low ≤ high) :
    facts.Sustains atoms formula low := by
  intro world inAll
  rcases sustained world inAll with holds | ⟨item, member, reached, fails⟩
  · exact .inl holds
  · exact .inr ⟨item, member, Nat.le_trans ordered reached, fails⟩

end FactSet

namespace FactBase

theorem mentions_facts_subset (base : FactBase) (formula : Formula) :
    base.facts.mentions ⊆ base.vocabularyWith formula := fun _ mentioned =>
  Atom.mem_vocabulary.mpr (List.mem_append_left _ mentioned)

theorem mentions_formula_subset (base : FactBase) (formula : Formula) :
    formula.mentions ⊆ base.vocabularyWith formula := fun _ mentioned =>
  Atom.mem_vocabulary.mpr (List.mem_append_right _ mentioned)

/-- The vocabulary of an entailment check is the smallest that covers the facts
and the formula. -/
theorem vocabularyWith_subset {base : FactBase} {formula : Formula}
    {atoms : List Atom} (factsCovered : base.facts.mentions ⊆ atoms)
    (formulaCovered : formula.mentions ⊆ atoms) :
    base.vocabularyWith formula ⊆ atoms := fun _ member =>
  List.append_subset.mpr ⟨factsCovered, formulaCovered⟩
    (Atom.mem_vocabulary.mp member)

/-- What entailment measures in a single world. -/
def support (base : FactBase) (formula : Formula) (world : Interpretation) :
    Degree :=
  max (base.facts.truth world).complement (formula.truth world)

theorem support_congr {base : FactBase} {formula : Formula}
    {left right : Interpretation}
    (agree : ∀ atom ∈ base.vocabularyWith formula,
      left.assigned atom = right.assigned atom) :
    base.support formula left = base.support formula right := by
  have factsAgree : base.facts.truth left = base.facts.truth right :=
    FactSet.truth_congr fun atom mentioned =>
      agree atom (mentions_facts_subset base formula mentioned)
  have formulaAgree : formula.truth left = formula.truth right :=
    Formula.truth_congr fun atom mentioned =>
      agree atom (mentions_formula_subset base formula mentioned)
  simp only [support]
  rw [factsAgree, formulaAgree]

theorem entailment_eq_minimum (base : FactBase) (formula : Formula) :
    base.entailment formula =
      Degree.minimum ((World.all (base.vocabularyWith formula)).map
        (base.support formula)) := by
  rw [entailment, World.search_eq_foldl]
  · simp only [Degree.minimum, List.foldl_map, support]
  · intro least world vanishing
    change (if _ < least then _ else least) = least
    rw [if_neg]
    rw [Degree.lt_iff, Degree.isZero_iff.mp vanishing]
    exact Nat.not_lt_zero _

/-- Entailment is the least support in the worlds of any vocabulary that
covers the facts and the formula. -/
theorem le_entailment_iff {base : FactBase} {formula : Formula}
    {atoms : List Atom} (factsCovered : base.facts.mentions ⊆ atoms)
    (formulaCovered : formula.mentions ⊆ atoms) {level : Degree} :
    level ≤ base.entailment formula ↔
      ∀ world ∈ World.all atoms, level ≤ base.support formula world := by
  have covered := vocabularyWith_subset factsCovered formulaCovered
  rw [entailment_eq_minimum, Degree.le_minimum_iff, List.forall_mem_map]
  constructor
  · intro bounded world inAll
    obtain ⟨other, otherInAll, agree⟩ :=
      World.exists_agreeing (base.vocabularyWith formula) inAll
    rw [← support_congr fun atom member =>
      agree atom (covered member) member]
    exact bounded other otherInAll
  · intro bounded world inAll
    obtain ⟨other, otherInAll, agree⟩ := World.exists_agreeing atoms inAll
    rw [← support_congr fun atom member =>
      agree atom member (covered member)]
    exact bounded other otherInAll

/-- The graded facts entail a formula fully when certain facts alone do. -/
theorem entailment_isOne_iff {base : FactBase} {formula : Formula}
    {atoms : List Atom} (factsCovered : base.facts.mentions ⊆ atoms)
    (formulaCovered : formula.mentions ⊆ atoms) :
    (base.entailment formula).isOne = true ↔
      base.facts.Sustains atoms formula Degree.one := by
  rw [Degree.isOne_iff_one_le, le_entailment_iff factsCovered formulaCovered]
  apply forall₂_congr
  intro world inAll
  rw [← Degree.isOne_iff_one_le, support, Degree.max_isOne_iff, or_comm]
  apply or_congr_right
  change (base.facts.truth world).isNegligible = true ↔ _
  rw [FactSet.truth_isNegligible_iff]
  simp only [Degree.isOne_iff_one_le]

/-- A cut entails a formula fully when facts that reach its level do. -/
theorem entailment_cut_isOne_iff {base : FactBase} {formula : Formula}
    {atoms : List Atom} (factsCovered : base.facts.mentions ⊆ atoms)
    (formulaCovered : formula.mentions ⊆ atoms) (level : Degree) :
    ((base.cut level).entailment formula).isOne = true ↔
      base.facts.Sustains atoms formula level := by
  have cutCovered : (base.cut level).facts.mentions ⊆ atoms :=
    fun _ mentioned =>
      factsCovered (FactSet.mentions_cut_subset _ _ mentioned)
  rw [entailment_isOne_iff cutCovered formulaCovered]
  apply forall₂_congr
  intro world inAll
  apply or_congr_right
  constructor
  · rintro ⟨⟨fact, _⟩, member, _, fails⟩
    obtain ⟨_, degree, present, reached⟩ := FuzzySet.mem_items_cut.mp member
    exact ⟨(fact, degree), present, reached, fails⟩
  · rintro ⟨⟨fact, degree⟩, present, reached, fails⟩
    refine ⟨(fact, Degree.one), ?_, Nat.le_refl _, fails⟩
    exact FuzzySet.mem_items_cut.mpr ⟨rfl, degree, present, reached⟩

end FactBase

end Possibilistic
