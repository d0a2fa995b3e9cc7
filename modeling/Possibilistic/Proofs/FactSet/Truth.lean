import Possibilistic.FactSet.Basic
import Possibilistic.Proofs.FuzzySet.Members
import Possibilistic.Proofs.World.Valuation

/-!
# Truth of fact sets

The truth of a set in a world is the least of what its members say, and depends
on the atoms that they mention.  It is negligible exactly where a certain fact
is, since a fact of lower degree leaves a truth that its complement shows.
-/

namespace Possibilistic

namespace FactSet

theorem mem_mentions {facts : FactSet} {atom : Atom} :
    atom ∈ facts.mentions ↔
      ∃ item ∈ facts.items, atom ∈ item.1.mentions := by
  simp only [mentions, FuzzySet.elements, ArrivalMap.keys, FuzzySet.items,
    List.mem_flatMap, List.mem_map]
  constructor
  · rintro ⟨fact, ⟨item, member, equality⟩, mentioned⟩
    exact ⟨item, member, equality ▸ mentioned⟩
  · rintro ⟨item, member, mentioned⟩
    exact ⟨item.1, ⟨item, member, rfl⟩, mentioned⟩

theorem mentions_subset_of_mem {facts : FactSet} {item : Formula × Degree}
    (member : item ∈ facts.items) : item.1.mentions ⊆ facts.mentions :=
  fun _ mentioned => mem_mentions.mpr ⟨item, member, mentioned⟩

theorem mentions_subset_atoms (facts : FactSet) :
    facts.mentions ⊆ facts.atoms :=
  fun _ mentioned => Atom.mem_vocabulary.mpr mentioned

theorem mentions_cut_subset (facts : FactSet) (level : Degree) :
    (facts.cut level).mentions ⊆ facts.mentions := by
  intro atom mentioned
  obtain ⟨item, member, inItem⟩ := mem_mentions.mp mentioned
  obtain ⟨_, degree, present, _⟩ := FuzzySet.mem_items_cut.mp member
  exact mem_mentions.mpr ⟨_, present, inItem⟩

theorem truth_eq_minimum (facts : FactSet) (world : Interpretation) :
    facts.truth world = Degree.minimum (facts.items.map fun item =>
      max item.2.complement (item.1.truth world)) := by
  simp only [truth, Degree.minimum, List.foldl_map]

theorem negativeZero_truth (facts : FactSet) (world : Interpretation) :
    (facts.truth world).negativeZero = false := by
  rw [truth_eq_minimum]
  apply Degree.negativeZero_minimum
  intro degree member
  obtain ⟨item, _, equality⟩ := List.mem_map.mp member
  rw [← equality]
  exact Degree.negativeZero_max rfl _

theorem truth_congr {left right : Interpretation} {facts : FactSet}
    (agree : ∀ atom ∈ facts.mentions,
      left.assigned atom = right.assigned atom) :
    facts.truth left = facts.truth right := by
  rw [truth_eq_minimum, truth_eq_minimum]
  congr 1
  apply List.map_congr_left
  intro item member
  rw [Formula.truth_congr fun atom mentioned =>
    agree atom (mentions_subset_of_mem member mentioned)]

/-- Facts with equal degrees in two interpretations are true to the same
degree, since the signs of zero are lost among the complements. -/
theorem truth_eq_of_units {left right : Interpretation} {facts : FactSet}
    (agree : ∀ item ∈ facts.items,
      (item.1.truth left).units = (item.1.truth right).units) :
    facts.truth left = facts.truth right := by
  apply Degree.ext_units
  · apply Degree.units_eq_of_le_iff
    intro level _
    rw [truth_eq_minimum, truth_eq_minimum, Degree.le_minimum_iff,
      Degree.le_minimum_iff, List.forall_mem_map, List.forall_mem_map]
    apply forall₂_congr
    intro item member
    rw [Degree.le_max_iff, Degree.le_max_iff, Degree.le_iff, Degree.le_iff,
      Degree.le_iff, agree item member]
  · rw [negativeZero_truth, negativeZero_truth]

/-- The facts are negligible in a world that fails a certain fact. -/
theorem truth_isNegligible_iff {facts : FactSet} {world : Interpretation} :
    (facts.truth world).isNegligible = true ↔
      ∃ item ∈ facts.items, item.2.isOne = true ∧
        (item.1.truth world).isNegligible = true := by
  rw [truth_eq_minimum, Degree.isNegligible_minimum_iff]
  simp only [List.mem_map, exists_exists_and_eq_and,
    Degree.isNegligible_max_complement_iff]

end FactSet

end Possibilistic
