import Possibilistic.Proofs.FactSet.Truth
import Possibilistic.Proofs.Formula.Classical

/-!
# How far facts exclude a world

Facts exclude a world as far as the greatest degree of a fact that is false in
it.  For classical facts the truth of the set is the complement of this
degree.
-/

namespace Possibilistic

namespace FactSet

/-- Every fact is classical. -/
def isClassical (facts : FactSet) : Bool :=
  facts.items.all fun item => item.1.isClassical

/-- The greatest degree of a fact that is false in a world, zero where none
is. -/
def exclusion (facts : FactSet) (world : Interpretation) : Degree :=
  Degree.maximum <|
    (facts.items.filter fun item => (item.1.truth world).isZero).map Prod.snd

/-- The least exclusion of a world of the vocabulary where the formula is
false, one where it is false in none. -/
def leastExclusion (facts : FactSet) (atoms : List Atom) (formula : Formula) :
    Degree :=
  Degree.minimum <|
    ((World.all atoms).filter fun world => (formula.truth world).isZero).map
      facts.exclusion

theorem isClassical_of_mem {facts : FactSet}
    (classical : facts.isClassical = true) {item : Formula × Degree}
    (member : item ∈ facts.items) : item.1.isClassical = true :=
  List.all_eq_true.mp classical item member

theorem le_exclusion_iff {facts : FactSet} {world : Interpretation}
    {level : Degree} (positive : 0 < level.units) :
    level ≤ facts.exclusion world ↔
      ∃ item ∈ facts.items, (item.1.truth world).isZero = true ∧
        level ≤ item.2 := by
  rw [exclusion, Degree.le_maximum_iff positive]
  constructor
  · rintro ⟨degree, member, reached⟩
    obtain ⟨item, kept, equality⟩ := List.mem_map.mp member
    obtain ⟨present, fails⟩ := List.mem_filter.mp kept
    exact ⟨item, present, fails, equality ▸ reached⟩
  · rintro ⟨item, present, fails, reached⟩
    exact ⟨item.2, List.mem_map_of_mem (List.mem_filter.mpr ⟨present, fails⟩),
      reached⟩

/-- Exclusion depends on the memberships alone, not on the order of arrival. -/
theorem le_exclusion_iff_membership {facts : FactSet}
    {world : Interpretation} {level : Degree} (positive : 0 < level.units) :
    level ≤ facts.exclusion world ↔
      ∃ fact : Formula, (fact.truth world).isZero = true ∧
        level ≤ facts.membership fact := by
  rw [le_exclusion_iff positive]
  constructor
  · rintro ⟨⟨fact, degree⟩, present, fails, reached⟩
    refine ⟨fact, fails, ?_⟩
    exact (FuzzySet.le_membership_iff positive).mpr ⟨degree, present, reached⟩
  · rintro ⟨fact, fails, reached⟩
    obtain ⟨degree, present, reachedThere⟩ :=
      (FuzzySet.le_membership_iff positive).mp reached
    exact ⟨(fact, degree), present, fails, reachedThere⟩

theorem le_exclusion_of_mem {facts : FactSet} {world : Interpretation}
    {item : Formula × Degree} (present : item ∈ facts.items)
    (fails : (item.1.truth world).isZero = true) :
    item.2 ≤ facts.exclusion world :=
  (le_exclusion_iff (FuzzySet.pos_of_mem_items present)).mpr
    ⟨item, present, fails, Nat.le_refl _⟩

/-- A fact that is false in a world reaches its exclusion, unless that is
zero. -/
theorem exclusion_eq_zero_or_mem (facts : FactSet) (world : Interpretation) :
    facts.exclusion world = Degree.zero ∨
      ∃ item ∈ facts.items, (item.1.truth world).isZero = true ∧
        item.2 = facts.exclusion world := by
  rcases Degree.maximum_mem
    ((facts.items.filter fun item => (item.1.truth world).isZero).map
      Prod.snd) with none | member
  · exact .inl none
  · obtain ⟨item, kept, equality⟩ := List.mem_map.mp member
    obtain ⟨present, fails⟩ := List.mem_filter.mp kept
    exact .inr ⟨item, present, fails, equality⟩

theorem negativeZero_exclusion (facts : FactSet) (world : Interpretation) :
    (facts.exclusion world).negativeZero = false :=
  Degree.negativeZero_maximum _

theorem le_leastExclusion_iff {facts : FactSet} {atoms : List Atom}
    {formula : Formula} {level : Degree} :
    level ≤ facts.leastExclusion atoms formula ↔
      ∀ world ∈ World.all atoms, (formula.truth world).isZero = true →
        level ≤ facts.exclusion world := by
  rw [leastExclusion, Degree.le_minimum_iff, List.forall_mem_map]
  constructor
  · intro bounded world inAll fails
    exact bounded world (List.mem_filter.mpr ⟨inAll, fails⟩)
  · intro bounded world kept
    obtain ⟨inAll, fails⟩ := List.mem_filter.mp kept
    exact bounded world inAll fails

/-- A world that fails the formula has the least exclusion, unless that is
one. -/
theorem leastExclusion_eq_one_or_mem (facts : FactSet) (atoms : List Atom)
    (formula : Formula) :
    facts.leastExclusion atoms formula = Degree.one ∨
      ∃ world ∈ World.all atoms, (formula.truth world).isZero = true ∧
        facts.exclusion world = facts.leastExclusion atoms formula := by
  rcases Degree.minimum_mem
    (((World.all atoms).filter fun world =>
      (formula.truth world).isZero).map facts.exclusion) with none | member
  · exact .inl none
  · obtain ⟨world, kept, equality⟩ := List.mem_map.mp member
    obtain ⟨inAll, fails⟩ := List.mem_filter.mp kept
    exact .inr ⟨world, inAll, fails, equality⟩

theorem negativeZero_leastExclusion (facts : FactSet) (atoms : List Atom)
    (formula : Formula) :
    (facts.leastExclusion atoms formula).negativeZero = false := by
  apply Degree.negativeZero_minimum
  intro degree member
  obtain ⟨world, _, equality⟩ := List.mem_map.mp member
  rw [← equality]
  exact negativeZero_exclusion facts world

section

variable {facts : FactSet} {atoms : List Atom} {world : Interpretation}
  (inAll : world ∈ World.all atoms)
  (classical : facts.isClassical = true)
  (covered : facts.mentions ⊆ atoms)

include inAll classical covered

theorem truth_isCrisp_of_mem {item : Formula × Degree}
    (present : item ∈ facts.items) : (item.1.truth world).IsCrisp :=
  Formula.truth_isCrisp inAll (isClassical_of_mem classical present)
    (fun _ mentioned => covered (mentions_subset_of_mem present mentioned))

/-- Classical facts are as true in a world as they do not exclude it. -/
theorem truth_eq_complement_exclusion :
    facts.truth world = (facts.exclusion world).complement := by
  have lower : (facts.exclusion world).complement ≤ facts.truth world := by
    rw [truth_eq_minimum, Degree.le_minimum_iff, List.forall_mem_map]
    intro item present
    rw [Degree.le_iff, Degree.units_max]
    rcases truth_isCrisp_of_mem inAll classical covered present with
      fails | holds
    · have reversed :=
        Degree.complement_antitone (le_exclusion_of_mem present fails)
      rw [Degree.le_iff] at reversed
      omega
    · have bounded := (facts.exclusion world).complement.atMostOne
      have full := Degree.isOne_iff.mp holds
      omega
  have upper : facts.truth world ≤ (facts.exclusion world).complement := by
    rcases exclusion_eq_zero_or_mem facts world with
      none | ⟨item, present, fails, equality⟩
    · have full : Degree.zero.complement.isOne = true :=
        Degree.complement_isOne_of_isZero (Degree.isZero_iff.mpr rfl)
      have bounded := (facts.truth world).atMostOne
      rw [none, Degree.le_iff, Degree.isOne_iff.mp full]
      exact bounded
    · have bounded : facts.truth world ≤
          max item.2.complement (item.1.truth world) := by
        rw [truth_eq_minimum]
        apply Degree.le_minimum_iff.mp (Nat.le_refl _)
        exact List.mem_map.mpr ⟨item, present, rfl⟩
      rw [Degree.le_iff, Degree.units_max, Degree.isZero_iff.mp fails]
        at bounded
      rw [← equality, Degree.le_iff]
      omega
  apply Degree.ext_units (Nat.le_antisymm upper lower)
  exact negativeZero_truth facts world

end

end FactSet

end Possibilistic
