import Possibilistic.Proofs.Agent.Candidates
import Possibilistic.Proofs.Agent.Election
import Possibilistic.Proofs.FuzzySet.Equality

/-!
# Goals

A goal is elected for the highest threshold that the possibility of some
candidate reaches.  Since the possibility falls as the level rises, these are
the thresholds that the formula of the least level above the bottom one
reaches.  The goal describes the highest level that is still that possible.
-/

namespace Possibilistic

namespace Agent

/-- A degree of possibility that an elected goal may have to reach. -/
def IsThreshold (agent : Agent) (threshold : Degree) : Prop :=
  threshold ∈ agent.beliefs.levels ∨
    (agent.beliefs.items = [] ∧ threshold = Degree.one)

theorem mem_thresholds_iff {agent : Agent} {threshold : Degree} :
    threshold ∈ agent.thresholds ↔ agent.IsThreshold threshold := by
  have levels_eq_nil_iff :
      agent.beliefs.levels = [] ↔ agent.beliefs.items = [] := by
    simp only [List.eq_nil_iff_forall_not_mem, FuzzySet.mem_levels_iff,
      not_exists, Prod.forall]
    exact forall_comm
  unfold thresholds IsThreshold
  rw [← levels_eq_nil_iff]
  split
  · rename_i none
    rw [List.reverse_eq_nil_iff] at none
    simp [none]
  · rename_i levels some
    have nonempty : agent.beliefs.levels ≠ [] :=
      fun none => some (by rw [none]; rfl)
    simp [nonempty]

theorem thresholds_descending (agent : Agent) :
    agent.thresholds.Pairwise fun left right => right < left := by
  unfold thresholds
  split
  · exact List.pairwise_singleton _ _
  · exact List.pairwise_reverse.mpr (Degree.pairwise_levels _)

theorem items_electedGoals_of_none {agent : Agent}
    (unelected : agent.electedGoal.value = none) :
    agent.electedGoals.items = [] := by
  rw [electedGoals, unelected]
  rfl

theorem items_electedGoals_of_some {agent : Agent} {formula : Formula}
    (elected : agent.electedGoal.value = some formula) :
    agent.electedGoals.items = [(formula, Degree.one)] := by
  rw [electedGoals, elected]
  have absent : formula ∉ FactSet.empty.items.map Prod.fst := nofun
  exact FuzzySet.items_assign_of_not_mem (by decide +kernel) absent

/-- How possible the beliefs leave it that a level is reached. -/
def possibilityOfLevel (agent : Agent) (level : Degree) : Degree :=
  (agent.considersPossible (agent.levelFormula level)).value

section

variable {agent : Agent} (vocabulary : HasVocabulary agent)

include vocabulary

theorem possibilityOfLevel_antitone {low high : Degree}
    (lowProper : agent.utility.IsProperLevel low)
    (highProper : agent.utility.IsProperLevel high) (ordered : low ≤ high) :
    agent.possibilityOfLevel high ≤ agent.possibilityOfLevel low := by
  unfold possibilityOfLevel considersPossible
  exact FactBase.value_possibility_antitone lowProper
    (describes_levelFormula vocabulary low) highProper
    (describes_levelFormula vocabulary high) ordered

/-- All descriptions of a level are equally possible. -/
theorem le_considersPossible_iff {threshold level : Degree} {formula : Formula}
    (proper : agent.utility.IsProperLevel level)
    (described : agent.utility.Describes level formula) :
    threshold ≤ (agent.considersPossible formula).value ↔
      threshold ≤ agent.possibilityOfLevel level := by
  have known := describes_levelFormula vocabulary level
  have same : level ≤ level := Nat.le_refl _
  have atMost := @FactBase.value_possibility_antitone
    (agent.base agent.beliefs) _ _ _ _ _ proper known proper described same
  have atLeast := @FactBase.value_possibility_antitone
    (agent.base agent.beliefs) _ _ _ _ _ proper described proper known same
  unfold possibilityOfLevel considersPossible
  rw [Degree.le_iff] at atMost atLeast
  rw [Degree.le_iff, Degree.le_iff, Nat.le_antisymm atMost atLeast]

/-- Some level reaches a threshold when the least one does. -/
theorem exists_le_possibilityOfLevel_iff {threshold least : Degree}
    (isLeast : IsLeast {level | agent.utility.IsProperLevel level} least) :
    (∃ level, agent.utility.IsProperLevel level ∧
        threshold ≤ agent.possibilityOfLevel level) ↔
      threshold ≤ agent.possibilityOfLevel least := by
  constructor
  · rintro ⟨level, proper, reached⟩
    have lowered := possibilityOfLevel_antitone vocabulary isLeast.1 proper
      (isLeast.2 proper)
    rw [Degree.le_iff] at reached lowered ⊢
    exact Nat.le_trans reached lowered
  · intro reached
    exact ⟨least, isLeast.1, reached⟩

theorem any_candidates_iff {threshold : Degree} :
    (agent.candidates.any fun formula =>
        threshold ≤ (agent.considersPossible formula).value) = true ↔
      ∃ level, agent.utility.IsProperLevel level ∧
        threshold ≤ agent.possibilityOfLevel level := by
  simp only [candidates_eq vocabulary, List.any_map, List.any_reverse,
    List.any_eq_true, Distribution.mem_tail_levels_iff, Function.comp_apply,
    decide_eq_true_eq, possibilityOfLevel]

theorem value_electedGoal_eq_none
    (unreached : ∀ threshold level, agent.IsThreshold threshold →
      agent.utility.IsProperLevel level →
        ¬threshold ≤ agent.possibilityOfLevel level) :
    agent.electedGoal.value = none := by
  have none : (agent.thresholds.find? fun threshold =>
      agent.candidates.any fun formula =>
        threshold ≤ (agent.considersPossible formula).value) = none := by
    apply List.find?_eq_none.mpr
    intro threshold member reached
    obtain ⟨level, proper, possible⟩ :=
      (any_candidates_iff vocabulary).mp reached
    exact unreached threshold level (mem_thresholds_iff.mp member) proper
      possible
  rw [value_electedGoal_eq_bind, none]
  rfl

/-- The goal describes the highest level whose possibility reaches the highest
threshold that any level reaches. -/
theorem value_electedGoal_eq_some {threshold level : Degree}
    (isThreshold : agent.IsThreshold threshold)
    (proper : agent.utility.IsProperLevel level)
    (possible : threshold ≤ agent.possibilityOfLevel level) :
    ∃ threshold level,
      IsGreatest
        {threshold | agent.IsThreshold threshold ∧
          ∃ level, agent.utility.IsProperLevel level ∧
            threshold ≤ agent.possibilityOfLevel level} threshold ∧
      IsGreatest
        {level | agent.utility.IsProperLevel level ∧
          threshold ≤ agent.possibilityOfLevel level} level ∧
      agent.electedGoal.value = some (agent.levelFormula level) := by
  have reaches : ∃ threshold ∈ agent.thresholds,
      (agent.candidates.any fun formula =>
        threshold ≤ (agent.considersPossible formula).value) = true :=
    ⟨threshold, mem_thresholds_iff.mpr isThreshold,
      (any_candidates_iff vocabulary).mpr ⟨level, proper, possible⟩⟩
  obtain ⟨highest, highestFound⟩ :=
    Option.isSome_iff_exists.mp (List.find?_isSome.mpr reaches)
  have greatest :=
    Degree.isGreatest_of_find? (thresholds_descending agent) highestFound
  simp only [mem_thresholds_iff, any_candidates_iff vocabulary] at greatest
  obtain ⟨⟨_, reached⟩, _⟩ := id greatest
  have attains : ∃ level ∈ agent.utility.levels.tail.reverse,
      decide (highest ≤ agent.possibilityOfLevel level) = true := by
    obtain ⟨level, proper, possible⟩ := reached
    exact ⟨level, List.mem_reverse.mpr
      (Distribution.mem_tail_levels_iff.mpr proper),
      decide_eq_true possible⟩
  obtain ⟨best, bestFound⟩ :=
    Option.isSome_iff_exists.mp (List.find?_isSome.mpr attains)
  have descending : agent.utility.levels.tail.reverse.Pairwise
      fun left right => right < left :=
    List.pairwise_reverse.mpr (Degree.pairwise_levels _).tail
  have bestGreatest := Degree.isGreatest_of_find? descending bestFound
  simp only [List.mem_reverse, Distribution.mem_tail_levels_iff,
    decide_eq_true_eq] at bestGreatest
  refine ⟨highest, best, greatest, bestGreatest, ?_⟩
  unfold possibilityOfLevel at bestFound
  rw [value_electedGoal_eq_bind, highestFound, Option.bind_some,
    candidates_eq vocabulary, List.find?_map, Function.comp_def, bestFound,
    Option.map_some]

end

/-- Renewing the goals never fails.  When all worlds have equal utility, or when
the least level above the bottom one is less possible than every threshold,
there is no goal.  Otherwise the goal describes the highest level that reaches
the highest threshold that the least one reaches. -/
theorem updateGoals_elects_best {agent : Agent} (visited : Visited agent) :
    ∃ goals : FactSet,
      (updateGoals.runOn agent).value = (.ok (), { agent with goals }) ∧
      (agent.utility.IsUniform → goals.items = []) ∧
      (¬agent.utility.IsUniform →
        ∃ least, IsLeast {level | agent.utility.IsProperLevel level} least ∧
          (∀ level, ∃ formula, agent.utility.Describes level formula) ∧
          ∀ describe : Degree → Formula,
            (∀ level, agent.utility.IsProperLevel level →
              agent.utility.Describes level (describe level)) →
            let possibility := fun level =>
              (agent.considersPossible (describe level)).value
            ((∀ threshold, agent.IsThreshold threshold →
                possibility least < threshold) → goals.items = []) ∧
            ((∃ threshold, agent.IsThreshold threshold ∧
                threshold ≤ possibility least) →
              ∃ highest best formula,
                IsGreatest
                  {threshold | agent.IsThreshold threshold ∧
                    threshold ≤ possibility least} highest ∧
                IsGreatest
                  {level | agent.utility.IsProperLevel level ∧
                    highest ≤ possibility level} best ∧
                goals.items = [(formula, Degree.one)] ∧
                agent.utility.Describes best formula)) := by
  have vocabulary := hasVocabulary_of_visited visited
  refine ⟨agent.electedGoals, value_updateGoals agent, ?_, ?_⟩
  · intro uniform
    apply items_electedGoals_of_none
    apply value_electedGoal_eq_none vocabulary
    intro threshold level _ proper
    exact absurd proper (Distribution.isUniform_iff.mp uniform level)
  · intro uneven
    rw [Distribution.isUniform_iff, not_forall_not] at uneven
    obtain ⟨_, someProper⟩ := uneven
    obtain ⟨least, isLeast⟩ :=
      Distribution.exists_isLeast_isProperLevel someProper
    refine ⟨least, isLeast,
      fun level => ⟨_, describes_levelFormula vocabulary level⟩, ?_⟩
    intro describe described possibility
    have reaches_iff : ∀ threshold level, agent.utility.IsProperLevel level →
        (threshold ≤ possibility level ↔
          threshold ≤ agent.possibilityOfLevel level) :=
      fun _ level proper =>
        le_considersPossible_iff vocabulary proper (described level proper)
    have sameThresholds :
        {threshold | agent.IsThreshold threshold ∧
          threshold ≤ possibility least} =
        {threshold | agent.IsThreshold threshold ∧
          ∃ level, agent.utility.IsProperLevel level ∧
            threshold ≤ agent.possibilityOfLevel level} := by
      ext threshold
      simp only [Set.mem_ofPred_eq, reaches_iff threshold least isLeast.1,
        exists_le_possibilityOfLevel_iff vocabulary isLeast]
    have sameLevels : ∀ threshold,
        {level | agent.utility.IsProperLevel level ∧
          threshold ≤ possibility level} =
        {level | agent.utility.IsProperLevel level ∧
          threshold ≤ agent.possibilityOfLevel level} := by
      intro threshold
      ext level
      exact and_congr_right (reaches_iff threshold level)
    constructor
    · intro unreached
      apply items_electedGoals_of_none
      apply value_electedGoal_eq_none vocabulary
      intro threshold level isThreshold proper reached
      have leastReaches := (exists_le_possibilityOfLevel_iff vocabulary
        isLeast).mp ⟨level, proper, reached⟩
      rw [← reaches_iff threshold least isLeast.1] at leastReaches
      exact absurd leastReaches
        (Nat.not_le_of_lt (unreached threshold isThreshold))
    · rintro ⟨threshold, isThreshold, reached⟩
      rw [reaches_iff threshold least isLeast.1] at reached
      obtain ⟨highest, best, highestGreatest, bestGreatest, elected⟩ :=
        value_electedGoal_eq_some vocabulary isThreshold isLeast.1 reached
      rw [← sameThresholds] at highestGreatest
      rw [← sameLevels] at bestGreatest
      exact ⟨highest, best, agent.levelFormula best, highestGreatest,
        bestGreatest, items_electedGoals_of_some elected,
        describes_levelFormula vocabulary best⟩

/-- An agent that wants the sun to shine, and half believes that it does not,
takes it for a goal since this is possible enough. -/
theorem updateGoals_elects_best_sun :
    let sun : Formula := .atom ⟨"sun"⟩
    let program : Program :=
      { beliefs := [.tuple [.fact sun.neg, .number Degree.half.toBinary64]]
        desireRules := [.rule { consequent := sun }] }
    ∃ agent : Agent,
      (create "camper" program Settings.standard true).value = .ok agent ∧
      Visited agent ∧
      agent.beliefs.levels = [Degree.half] ∧
      ∃ goals formula,
        (updateGoals.runOn agent).value = (.ok (), { agent with goals }) ∧
        goals.items = [(formula, Degree.one)] ∧
        agent.utility.Describes Degree.one formula := by
  intro sun program
  have observed :
      (create "camper" program Settings.standard true).value.toOption.map
        (fun agent => (agent.beliefs.levels, agent.utility.levels.tail,
          decide (Degree.half ≤ agent.possibilityOfLevel Degree.one))) =
        some ([Degree.half], [Degree.one], true) := by
    decide +kernel
  cases built : (create "camper" program Settings.standard true).value with
  | error fault =>
      rw [built] at observed
      cases observed
  | ok agent =>
      rw [built] at observed
      simp only [Except.toOption, Option.map_some, Option.some.injEq,
        Prod.mk.injEq, decide_eq_true_eq] at observed
      obtain ⟨beliefLevels, utilityLevels, possible⟩ := observed
      have visited : Visited agent := .created built
      have proper_iff : ∀ level,
          agent.utility.IsProperLevel level ↔ level = Degree.one := by
        intro level
        rw [← Distribution.mem_tail_levels_iff, utilityLevels,
          List.mem_singleton]
      have uneven : ¬agent.utility.IsUniform := by
        rw [Distribution.isUniform_iff]
        intro none
        exact none Degree.one ((proper_iff _).mpr rfl)
      obtain ⟨goals, renewed, _, elects⟩ := updateGoals_elects_best visited
      obtain ⟨least, isLeast, _, elects⟩ := elects uneven
      unfold possibilityOfLevel at possible
      rw [← (proper_iff least).mp isLeast.1] at possible
      have isThreshold : agent.IsThreshold Degree.half := by
        left
        rw [beliefLevels]
        exact List.mem_singleton.mpr rfl
      obtain ⟨_, best, formula, _, bestGreatest, single, described⟩ :=
        (elects agent.levelFormula fun level _ =>
          describes_levelFormula (hasVocabulary_of_visited visited) level).2
          ⟨Degree.half, isThreshold, possible⟩
      rw [(proper_iff best).mp bestGreatest.1.1] at described
      exact ⟨agent, rfl, visited, beliefLevels, goals, formula, renewed, single,
        described⟩

end Agent

end Possibilistic
