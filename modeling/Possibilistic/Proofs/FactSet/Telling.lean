import Possibilistic.Proofs.FactSet.Exclusion

/-!
# Telling classical facts

Telling and untelling keep facts classical over a vocabulary.  The exclusion of
a world after a fact is told is reached by the new degree of this fact or by
another fact as before.
-/

namespace Possibilistic

namespace FactSet

/-- Every fact is classical and mentions only atoms of the vocabulary. -/
def IsClassicalOver (facts : FactSet) (atoms : List Atom) : Prop :=
  ∀ item ∈ facts.items,
    item.1.isClassical = true ∧ item.1.mentions ⊆ atoms

theorem isClassicalOver_iff {facts : FactSet} {atoms : List Atom} :
    facts.IsClassicalOver atoms ↔
      facts.isClassical = true ∧ facts.mentions ⊆ atoms := by
  constructor
  · intro factsOver
    refine ⟨List.all_eq_true.mpr fun item present => (factsOver item present).1, ?_⟩
    intro atom mentioned
    obtain ⟨item, present, inItem⟩ := mem_mentions.mp mentioned
    exact (factsOver item present).2 inItem
  · intro ⟨classical, covered⟩ item present
    refine ⟨isClassical_of_mem classical present, ?_⟩
    intro atom mentioned
    exact covered (mentions_subset_of_mem present mentioned)

/-- What holds of the told fact and of the facts before it holds of the facts
after it was told. -/
theorem forall_mem_tell {facts : FactSet} (holds : Formula → Prop)
    (before : ∀ item ∈ facts.items, holds item.1) {fact : Formula}
    (told : holds fact) (degree : Degree) :
    ∀ item ∈ (facts.tell fact degree).items, holds item.1 := by
  intro ⟨other, known⟩ present
  have positive : 0 < known.units := FuzzySet.pos_of_mem_items present
  have reached : known ≤ (facts.tell fact degree).membership other :=
    (FuzzySet.le_membership_iff positive).mpr ⟨known, present, Nat.le_refl _⟩
  rcases FuzzySet.le_membership_assign_iff.mp reached with
    ⟨same, _⟩ | ⟨_, reachedBefore⟩
  · cases same
    exact told
  · obtain ⟨earlier, inFacts, _⟩ :=
      (FuzzySet.le_membership_iff positive).mp reachedBefore
    exact before (other, earlier) inFacts

theorem forall_mem_untell {facts : FactSet} (holds : Formula → Prop)
    (before : ∀ item ∈ facts.items, holds item.1) (fact : Formula) :
    ∀ item ∈ (facts.untell fact).items, holds item.1 :=
  fun item present => before item (List.mem_filter.mp present).1

/-- Facts whose members are among those of classical facts are classical. -/
theorem IsClassicalOver.of_memberships {facts others : FactSet}
    {atoms : List Atom} (factsOver : facts.IsClassicalOver atoms)
    (kept : ∀ fact degree, (fact, degree) ∈ others.items →
      ∃ known, (fact, known) ∈ facts.items) :
    others.IsClassicalOver atoms := by
  intro ⟨fact, degree⟩ present
  obtain ⟨known, inFacts⟩ := kept fact degree present
  exact factsOver (fact, known) inFacts

theorem IsClassicalOver.untell {facts : FactSet} {atoms : List Atom}
    (factsOver : facts.IsClassicalOver atoms) (fact : Formula) :
    (facts.untell fact).IsClassicalOver atoms :=
  forall_mem_untell (fun known => known.isClassical = true ∧
    known.mentions ⊆ atoms) factsOver fact

/-- After a fact is told, it excludes the worlds where it is false at its new
degree, and the other facts exclude what they excluded. -/
theorem le_exclusion_tell_iff {facts : FactSet} {fact : Formula}
    {degree level : Degree} {world : Interpretation}
    (positive : 0 < level.units) :
    level ≤ (facts.tell fact degree).exclusion world ↔
      ((fact.truth world).isZero = true ∧ level ≤ degree) ∨
        ∃ other : Formula, other ≠ fact ∧ (other.truth world).isZero = true ∧
          level ≤ facts.membership other := by
  rw [le_exclusion_iff_membership positive]
  constructor
  · intro ⟨other, fails, reached⟩
    rcases FuzzySet.le_membership_assign_iff.mp reached with
      ⟨same, below⟩ | ⟨different, before⟩
    · exact .inl ⟨same ▸ fails, below⟩
    · exact .inr ⟨other, different, fails, before⟩
  · intro reached
    rcases reached with ⟨fails, below⟩ | ⟨other, different, fails, before⟩
    · refine ⟨fact, fails, ?_⟩
      exact FuzzySet.le_membership_assign_iff.mpr (.inl ⟨rfl, below⟩)
    · refine ⟨other, fails, ?_⟩
      exact FuzzySet.le_membership_assign_iff.mpr (.inr ⟨different, before⟩)

/-- Without a fact, the others exclude what they excluded. -/
theorem le_exclusion_untell_iff {facts : FactSet} {fact : Formula}
    {level : Degree} {world : Interpretation} (positive : 0 < level.units) :
    level ≤ (facts.untell fact).exclusion world ↔
      ∃ other : Formula, other ≠ fact ∧ (other.truth world).isZero = true ∧
        level ≤ facts.membership other := by
  have aboveZero : ¬level ≤ Degree.zero := by
    rw [Degree.le_iff, Degree.units_zero]
    omega
  rw [le_exclusion_iff_membership positive]
  apply exists_congr
  intro other
  rw [untell, FuzzySet.membership_remove]
  by_cases same : other = fact
  · simp [same, aboveZero]
  · simp [same]

end FactSet

end Possibilistic
