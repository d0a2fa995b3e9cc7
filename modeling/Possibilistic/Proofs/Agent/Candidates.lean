import Possibilistic.Agent.Deliberation
import Possibilistic.Proofs.Agent.States
import Possibilistic.Proofs.Cube.Meaning
import Possibilistic.Proofs.Distribution.Description

/-!
# Candidates for a goal

The formula of a utility level describes the worlds that reach it.  That of the
least level is the constant one and the others are no constants, so the
candidates are the formulas of the levels above the least one.
-/

namespace Possibilistic

theorem Distribution.zip_worlds_degrees (distribution : Distribution) :
    distribution.worlds.zip distribution.degrees =
      (List.range (World.count distribution.atoms)).map fun number : Nat =>
        (World.numbered distribution.atoms number,
          distribution.degreeAt number) := by
  apply List.ext_getElem
  · simp [worlds, World.all, World.firstWorlds, distribution.length_eq]
  · intro number below _
    have inRange : number < distribution.degrees.length := by
      rw [List.length_zip] at below
      exact Nat.lt_of_lt_of_le below (Nat.min_le_right _ _)
    simp [worlds, World.all, World.firstWorlds, degreeAt_eq_getElem inRange]

namespace Agent

/-- The worlds whose utility reaches a level. -/
def reaching (agent : Agent) (level : Degree) : List Interpretation :=
  ((agent.utility.worlds.zip agent.utility.degrees).filter
    fun (_, utility) => level ≤ utility).map Prod.fst

theorem mem_reaching_iff {agent : Agent} {level : Degree}
    {world : Interpretation} :
    world ∈ agent.reaching level ↔
      ∃ number, number < World.count agent.utility.atoms ∧
        level ≤ agent.utility.degreeAt number ∧
          World.numbered agent.utility.atoms (number : Nat) = world := by
  rw [reaching, Distribution.zip_worlds_degrees, List.filter_map, List.map_map,
    List.mem_map]
  simp [and_assoc]

theorem levelFormula_eq (agent : Agent) (level : Degree) :
    agent.levelFormula level =
      Cube.disjunction (Cube.minimize
        ((agent.reaching level).map Cube.ofInterpretation)) := by
  rw [reaching, List.map_map]
  rfl

theorem reaching_subset (agent : Agent) (level : Degree) :
    agent.reaching level ⊆ World.all agent.utility.atoms := by
  intro world member
  obtain ⟨number, inRange, _, equality⟩ := mem_reaching_iff.mp member
  exact World.mem_all.mpr ⟨number, inRange, equality⟩

section

variable {agent : Agent} (vocabulary : HasVocabulary agent)

include vocabulary

/-- The formula of a level describes the worlds that reach it. -/
theorem describes_levelFormula (level : Degree) :
    agent.utility.Describes level (agent.levelFormula level) := by
  have known := agent.reaching_subset level
  obtain ⟨classical, covered⟩ := Cube.disjunction_over vocabulary.nonconstant
    (Cube.over_minimize (Cube.over_ofInterpretation vocabulary.ascending known))
  rw [← levelFormula_eq] at classical covered
  have holds_iff : ∀ number, number < World.count agent.utility.atoms →
      (((agent.levelFormula level).truth
        (World.numbered agent.utility.atoms (number : Nat))).isOne = true ↔
          level ≤ agent.utility.degreeAt number) := by
    intro number inRange
    rw [levelFormula_eq, Cube.truth_minimize_isOne_iff vocabulary.ascending
      known vocabulary.nonconstant (World.mem_all.mpr ⟨number, inRange, rfl⟩)]
    constructor
    · rintro ⟨other, member, samePoint⟩
      obtain ⟨otherNumber, otherInRange, reached, equality⟩ :=
        mem_reaching_iff.mp member
      rw [← equality] at samePoint
      rw [← Cube.eq_of_ofInterpretation_eq vocabulary.ascending
        vocabulary.nonconstant otherInRange inRange samePoint]
      exact reached
    · intro reached
      exact ⟨_, mem_reaching_iff.mpr ⟨number, inRange, reached, rfl⟩, rfl⟩
  constructor
  · exact covered
  · intro number inRange reached
    exact (holds_iff number inRange).mpr reached
  · intro number inRange missed
    have inAll := World.mem_all.mpr ⟨number, inRange, rfl⟩
    rcases Formula.truth_isCrisp inAll classical covered with fails | holds
    · exact fails
    · exact absurd ((holds_iff number inRange).mp holds) missed

/-- The formula of a level that all worlds reach is the constant one. -/
theorem levelFormula_eq_top {level : Degree}
    (reached : ∀ number, number < World.count agent.utility.atoms →
      level ≤ agent.utility.degreeAt number) :
    agent.levelFormula level = Formula.top := by
  rw [levelFormula_eq]
  apply Cube.disjunction_minimize_eq_top vocabulary.ascending
    (agent.reaching_subset level) vocabulary.nonconstant
  intro world inAll
  obtain ⟨number, inRange, equality⟩ := World.mem_all.mp inAll
  exact mem_reaching_iff.mpr ⟨number, inRange, reached number inRange, equality⟩

theorem isConstant_levelFormula_of_isLeast {level : Degree}
    (least : IsLeast {other | other ∈ agent.utility.levels} level) :
    (agent.levelFormula level).isConstant = true := by
  rw [levelFormula_eq_top vocabulary]
  · rw [Formula.isConstant, Formula.constant?_top]
    rfl
  · intro number inRange
    obtain ⟨reached, member, units⟩ := Distribution.exists_mem_levels inRange
    rw [Degree.le_iff, ← units]
    exact least.2 member

theorem isConstant_levelFormula_of_isProperLevel {level : Degree}
    (proper : agent.utility.IsProperLevel level) :
    (agent.levelFormula level).isConstant = false := by
  rw [Formula.isConstant,
    (describes_levelFormula vocabulary level).constant?_eq_none proper]
  rfl

/-- The candidates are the formulas of the levels above the least one. -/
theorem candidates_eq :
    agent.candidates =
      agent.utility.levels.tail.reverse.map agent.levelFormula := by
  have kept : ∀ level ∈ agent.utility.levels.tail.reverse,
      (!(agent.levelFormula level).isConstant) = true := by
    intro level member
    rw [isConstant_levelFormula_of_isProperLevel vocabulary
      (Distribution.mem_tail_levels_iff.mp (List.mem_reverse.mp member))]
    rfl
  have dropped := fun level =>
    @isConstant_levelFormula_of_isLeast agent vocabulary level
  rw [candidates]
  have ascending : agent.utility.levels.Pairwise (· < ·) :=
    Degree.pairwise_levels _
  generalize agent.utility.levels = levels at kept dropped ascending ⊢
  cases levels with
  | nil => rfl
  | cons first later =>
      have least : IsLeast {other | other ∈ first :: later} first :=
        Degree.isLeast_of_ascending ascending
      rw [List.tail_cons] at kept
      rw [List.tail_cons, List.reverse_cons, List.map_append,
        List.filter_append, List.map_singleton, List.filter_singleton,
        dropped first least, List.filter_map, Function.comp_def,
        List.filter_eq_self.mpr kept, Bool.not_true, cond_false,
        List.append_nil]

end

end Agent

end Possibilistic
