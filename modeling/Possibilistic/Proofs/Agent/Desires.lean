import Possibilistic.Proofs.Agent.Phases
import Possibilistic.Proofs.Atom.Vocabulary

/-!
# The least utility

A pass over the desire rules gives every world the strongest activation of a
rule whose consequent holds there.  Passes from zero up ascend towards every
solution.  At each level a pass that still adds a world needs a rule that was
not active before, so one more pass than there are rules finds nothing to
change.
-/

namespace Possibilistic

namespace Agent

open Possibilistic.Distribution Deliberation

/-- In every world the utility is the strongest activation, computed with this
utility, of a desire rule whose consequent holds there. -/
def SolvesDesires (agent : Agent) (utility : Distribution) : Prop :=
  ∀ number, number < World.count utility.atoms →
    (utility.degreeAt number == agent.strongestActivation utility
      (World.numbered utility.atoms (number : Nat))) = true

theorem solvesDesires_iff {agent : Agent} {utility : Distribution} :
    agent.SolvesDesires utility ↔
      (agent.improved utility == utility) = true := by
  rw [beq_iff, and_iff_right (by rfl)]
  apply forall₂_congr
  intro number inRange
  rw [improved, degreeAt_mapWorlds inRange, Degree.beq_iff]
  exact eq_comm

theorem atoms_iterate_improved (agent : Agent) (count : Nat)
    (utility : Distribution) :
    (agent.improved^[count] utility).atoms = utility.atoms := by
  induction count with
  | zero => rfl
  | succ count ih =>
      rw [Function.iterate_succ_apply']
      exact ih

section

variable {agent : Agent} {level : Degree} (positive : 0 < level.units)

include positive

theorem le_degreeAt_improved_iff {utility : Distribution} {number : Nat}
    (inRange : number < World.count utility.atoms) :
    level ≤ (agent.improved utility).degreeAt number ↔
      ∃ rule ∈ agent.activeRules utility level,
        (rule.consequent.truth
          (World.numbered utility.atoms (number : Nat))).isOne = true := by
  rw [improved, degreeAt_mapWorlds inRange,
    le_strongestActivation_iff positive]

/-- A pass only depends on the active rules. -/
theorem improved_belowAt_of_subset {left right : Distribution}
    (sameAtoms : left.atoms = right.atoms)
    (active : agent.activeRules left level ⊆ agent.activeRules right level) :
    BelowAt level (agent.improved left) (agent.improved right) := by
  intro number inRange reached
  have leftRange : number < World.count left.atoms := inRange
  have rightRange : number < World.count right.atoms := by
    rw [← sameAtoms]
    exact leftRange
  obtain ⟨rule, isActive, holds⟩ :=
    (le_degreeAt_improved_iff positive leftRange).mp reached
  apply (le_degreeAt_improved_iff positive rightRange).mpr
  rw [sameAtoms] at holds
  exact ⟨rule, active isActive, holds⟩

/-- A pass is monotone. -/
theorem improved_belowAt {left right : Distribution}
    (sameAtoms : left.atoms = right.atoms)
    (below : BelowAt level left right) :
    BelowAt level (agent.improved left) (agent.improved right) :=
  improved_belowAt_of_subset positive sameAtoms
    (activeRules_sublist_of_belowAt sameAtoms below).subset

end

/-- The utility after so many passes from zero up. -/
def utilityAfter (agent : Agent) (atoms : List Atom) (passes : Nat) :
    Distribution :=
  agent.improved^[passes] (constant atoms Degree.zero)

theorem utilityAfter_succ (agent : Agent) (atoms : List Atom) (passes : Nat) :
    agent.utilityAfter atoms (passes + 1) =
      agent.improved (agent.utilityAfter atoms passes) :=
  Function.iterate_succ_apply' _ _ _

theorem atoms_utilityAfter (agent : Agent) (atoms : List Atom)
    (passes : Nat) : (agent.utilityAfter atoms passes).atoms = atoms :=
  atoms_iterate_improved agent passes _

section

variable {agent : Agent} {atoms : List Atom} {level : Degree}
  (positive : 0 < level.units)

include positive

theorem utilityAfter_zero_belowAt (other : Distribution) :
    BelowAt level (agent.utilityAfter atoms 0) other := by
  intro number inRange reached
  have vanishing : (agent.utilityAfter atoms 0).degreeAt number =
      Degree.zero := degreeAt_constant inRange
  rw [vanishing, Degree.le_iff, Degree.units_zero] at reached
  omega

/-- The passes ascend. -/
theorem utilityAfter_belowAt_succ (passes : Nat) :
    BelowAt level (agent.utilityAfter atoms passes)
      (agent.utilityAfter atoms (passes + 1)) := by
  induction passes with
  | zero => exact utilityAfter_zero_belowAt positive _
  | succ passes ih =>
      rw [utilityAfter_succ agent atoms passes,
        utilityAfter_succ agent atoms (passes + 1)]
      apply improved_belowAt positive _ ih
      rw [atoms_utilityAfter, atoms_utilityAfter]

/-- The passes stay below every solution. -/
theorem utilityAfter_belowAt_solution {other : Distribution}
    (sameAtoms : atoms = other.atoms) (solves : agent.SolvesDesires other)
    (passes : Nat) :
    BelowAt level (agent.utilityAfter atoms passes) other := by
  induction passes with
  | zero => exact utilityAfter_zero_belowAt positive _
  | succ passes ih =>
      have passAtoms : (agent.utilityAfter atoms passes).atoms =
          other.atoms := by
        rw [atoms_utilityAfter]
        exact sameAtoms
      have raised : BelowAt level
          (agent.improved (agent.utilityAfter atoms passes))
          (agent.improved other) := improved_belowAt positive passAtoms ih
      have improvedAtoms :
          (agent.improved (agent.utilityAfter atoms passes)).atoms =
            (agent.improved other).atoms := passAtoms
      rw [utilityAfter_succ]
      exact BelowAt.trans improvedAtoms raised
        (belowAt_of_beq (solvesDesires_iff.mp solves) level).1

theorem activeRules_utilityAfter_sublist_succ (passes : Nat) :
    List.Sublist (agent.activeRules (agent.utilityAfter atoms passes) level)
      (agent.activeRules (agent.utilityAfter atoms (passes + 1)) level) := by
  apply activeRules_sublist_of_belowAt
  · rw [atoms_utilityAfter, atoms_utilityAfter]
  · exact utilityAfter_belowAt_succ positive passes

/-- If a pass does not activate more rules, then the next pass adds no world. -/
theorem utilityAfter_stable_of_activeRules_subset {earlier passes : Nat}
    (active : agent.activeRules (agent.utilityAfter atoms passes) level ⊆
      agent.activeRules (agent.utilityAfter atoms earlier) level) :
    BelowAt level (agent.utilityAfter atoms (passes + 1))
      (agent.utilityAfter atoms (earlier + 1)) := by
  rw [utilityAfter_succ, utilityAfter_succ]
  apply improved_belowAt_of_subset positive _ active
  rw [atoms_utilityAfter, atoms_utilityAfter]

/-- While the level still gains worlds, every pass has found a further active
rule. -/
theorem stable_or_lt_length_activeRules (passes : Nat) :
    BelowAt level (agent.utilityAfter atoms (passes + 1))
        (agent.utilityAfter atoms passes) ∨
      passes < (agent.activeRules (agent.utilityAfter atoms passes)
        level).length := by
  induction passes with
  | zero =>
      by_cases noneActive :
          agent.activeRules (agent.utilityAfter atoms 0) level = []
      · left
        intro number inRange reached
        have sameAtoms : (agent.utilityAfter atoms (0 + 1)).atoms =
            (agent.utilityAfter atoms 0).atoms := by
          rw [atoms_utilityAfter, atoms_utilityAfter]
        rw [sameAtoms] at inRange
        rw [utilityAfter_succ agent atoms 0,
          le_degreeAt_improved_iff positive inRange] at reached
        obtain ⟨rule, isActive, _⟩ := reached
        rw [noneActive] at isActive
        cases isActive
      · right
        exact List.length_pos_iff.mpr noneActive
  | succ passes ih =>
      have ascending :=
        @activeRules_utilityAfter_sublist_succ agent atoms level positive passes
      rcases ih with stable | found
      · left
        apply utilityAfter_stable_of_activeRules_subset positive
        apply List.Sublist.subset
        apply activeRules_sublist_of_belowAt _ stable
        rw [atoms_utilityAfter, atoms_utilityAfter]
      · by_cases gained :
          (agent.activeRules (agent.utilityAfter atoms passes) level).length <
            (agent.activeRules (agent.utilityAfter atoms (passes + 1))
              level).length
        · right
          omega
        · -- No further rule: the active rules are those of the pass before.
          left
          have same := ascending.eq_of_length_le (Nat.le_of_not_lt gained)
          apply utilityAfter_stable_of_activeRules_subset positive
          rw [same]
          exact List.Subset.refl _

end

/-- One more pass than there are rules changes nothing. -/
theorem improved_utilityAfter_size (agent : Agent) (atoms : List Atom) :
    (agent.improved (agent.utilityAfter atoms agent.desireRules.size) ==
      agent.utilityAfter atoms agent.desireRules.size) = true := by
  rw [← utilityAfter_succ]
  apply beq_of_belowAt
  · rw [atoms_utilityAfter, atoms_utilityAfter]
  · intro level positive
    rcases stable_or_lt_length_activeRules positive agent.desireRules.size with
      stable | found
    · exact stable
    · have bounded := length_activeRules_le agent
        (agent.utilityAfter atoms agent.desireRules.size) level
      omega
  · intro level positive
    exact utilityAfter_belowAt_succ positive _

/-- A utility that a pass does not change gives a solution. -/
theorem solvesDesires_improved {agent : Agent} {utility : Distribution}
    (stable : (agent.improved utility == utility) = true) :
    agent.SolvesDesires (agent.improved utility) := by
  have sameAtoms : (agent.improved utility).atoms = utility.atoms := rfl
  apply solvesDesires_iff.mpr
  apply beq_of_belowAt
  · rfl
  · intro level positive
    exact improved_belowAt positive sameAtoms (belowAt_of_beq stable level).1
  · intro level positive
    exact improved_belowAt positive sameAtoms.symm
      (belowAt_of_beq stable level).2

theorem onlyEnumerates_desirePass (agent : Agent) :
    (desirePass.runOn agent).OnlyEnumerates := by
  simp only [desirePass, runOn_bind, runOn_get, pure_bind, resume_ok,
    runOn_lift, runOn_set, runOn_pure, bind_assoc]
  exact (onlyEnumerates_weighDesires agent).bind
    (Inquiry.OnlyEnumerates.pure _)

/-- The passes settle when one more than there are rules is allowed. -/
theorem exists_settledUtility_eq {agent : Agent}
    (within : agent.desireRules.size <
      agent.settings.deliberation.maxDesireIterations.toNat)
    (atoms : List Atom) :
    ∃ passes, (agent.improved (agent.utilityAfter atoms passes) ==
        agent.utilityAfter atoms passes) = true ∧
      agent.settledUtility (constant atoms Degree.zero) =
        (true, agent.utilityAfter atoms (passes + 1)) := by
  have unchanged : (agent.improved
      (agent.utilityAfter atoms agent.desireRules.size) !=
        agent.utilityAfter atoms agent.desireRules.size) = false := by
    simp [bne, improved_utilityAfter_size]
  obtain ⟨passes, changeless, stabilized⟩ :=
    @exists_stabilize_eq _ agent.improved
      (fun utility => agent.improved utility != utility) _ _ within
      (constant atoms Degree.zero) unchanged
  refine ⟨passes, ?_, stabilized⟩
  simpa [bne, utilityAfter] using changeless

theorem vocabulary_consequentAtoms (rules : RuleBase) :
    Atom.vocabulary rules.consequentAtoms = rules.consequentAtoms :=
  Atom.vocabulary_of_ascending (Atom.ascending_vocabulary _)

theorem uniform_consequentAtoms {rules : RuleBase} {limit : Int}
    (withinLimit : (rules.consequentAtoms.length : Int) ≤ limit)
    (degree : Degree) :
    uniform limit rules.consequentAtoms degree =
      .ok (constant rules.consequentAtoms degree) := by
  have notAbove : ¬limit < (rules.consequentAtoms.length : Int) := by omega
  simp only [uniform, vocabularyWithin, vocabulary_consequentAtoms,
    if_neg notAbove]
  rfl

theorem uniform_consequentAtoms_eq_error {rules : RuleBase} {limit : Int}
    (aboveLimit : limit < rules.consequentAtoms.length) (degree : Degree) :
    uniform limit rules.consequentAtoms degree =
      .error (.vocabularyTooLarge rules.consequentAtoms.length limit) := by
  simp only [uniform, vocabularyWithin, vocabulary_consequentAtoms,
    if_pos aboveLimit]
  rfl

theorem runOn_updateDesires {agent : Agent}
    (withinLimit : (agent.desireRules.consequentAtoms.length : Int) ≤
      agent.settings.logic.maxDistributionAtoms) :
    updateDesires.runOn agent =
      (settle .desire agent.settings.deliberation.maxDesireIterations
        desirePass).runOn
          { agent with
            utility := constant agent.desireRules.consequentAtoms
              Degree.zero } := by
  simp only [updateDesires, runOn_bind, runOn_get, runOn_ofExcept, runOn_set,
    pure_bind, resume_ok, uniform_consequentAtoms withinLimit]

/-- With one pass more than there are rules, the desires settle without a
complaint, in the least solution over their vocabulary. -/
theorem updateDesires_reaches_least_solution {agent : Agent}
    (withinLimit : (agent.desireRules.consequentAtoms.length : Int) ≤
      agent.settings.logic.maxDistributionAtoms)
    (enoughPasses : (agent.desireRules.size : Int) + 1 ≤
      agent.settings.deliberation.maxDesireIterations) :
    let atoms := agent.desireRules.consequentAtoms
    let passes := agent.settings.deliberation.maxDesireIterations.toNat
    ∃ utility : Distribution,
      ((untilStable desirePass passes).runOn
        { agent with utility := constant atoms Degree.zero }).value =
          (.ok true, { agent with utility }) ∧
      (updateDesires.runOn agent).value = (.ok (), { agent with utility }) ∧
      (updateDesires.runOn agent).OnlyEnumerates ∧
      utility.atoms = atoms ∧
      agent.SolvesDesires utility ∧
      ∀ other : Distribution, other.atoms = atoms →
        agent.SolvesDesires other →
          ∀ number, number < World.count atoms →
            utility.degreeAt number ≤ other.degreeAt number := by
  intro atoms passes
  have within : agent.desireRules.size < passes := by omega
  obtain ⟨earlier, stable, stabilized⟩ :=
    exists_settledUtility_eq within atoms
  have reached : ((untilStable desirePass passes).runOn
      { agent with utility := constant atoms Degree.zero }).value =
        (.ok (agent.settledUtility (constant atoms Degree.zero)).1,
          { agent with
            utility :=
              (agent.settledUtility (constant atoms Degree.zero)).2 }) :=
    value_untilStable (value_desirePass agent) passes
      (constant atoms Degree.zero)
  rw [stabilized] at reached
  have settled := @runOn_settle_of_stable .desire _ _ _ _ reached
  refine ⟨agent.utilityAfter atoms (earlier + 1), reached, ?_, ?_, ?_, ?_, ?_⟩
  · rw [runOn_updateDesires withinLimit, settled]
    rfl
  · rw [runOn_updateDesires withinLimit, settled]
    exact (onlyEnumerates_untilStable onlyEnumerates_desirePass _ _).bind
      (Inquiry.OnlyEnumerates.pure _)
  · exact atoms_utilityAfter agent atoms _
  · rw [utilityAfter_succ]
    exact solvesDesires_improved stable
  · intro other sameAtoms solves number inRange
    apply degreeAt_le_of_belowAt
    · intro level positive
      exact utilityAfter_belowAt_solution positive sameAtoms.symm solves _
    · rw [atoms_utilityAfter]
      exact inRange

/-- One wants a fire, and wood as far as one wants a fire.  Three passes are
enough for two rules; then the world with wood alone is wanted fully. -/
theorem updateDesires_reaches_least_solution_fire :
    let fire : Formula := .atom ⟨"fire"⟩
    let wood : Formula := .atom ⟨"wood"⟩
    let rules : RuleBase :=
      ⟨[{ consequent := wood, desire := fire }, { consequent := fire }],
        by decide⟩
    let agent : Agent :=
      { name := "camper"
        settings :=
          { deliberation :=
              { maxDesireIterations := 3, strictConvergence := true } }
        counted := true
        knowledge := FactSet.empty
        beliefs := FactSet.empty
        desireRules := rules
        obligationRules := RuleBase.empty
        obligations := FactSet.empty
        utility := constant [] Degree.zero
        goals := FactSet.empty }
    ∃ utility : Distribution,
      (updateDesires.runOn agent).value = (.ok (), { agent with utility }) ∧
      (updateDesires.runOn agent).OnlyEnumerates ∧
      agent.SolvesDesires utility ∧
      utility.degreeAt 0 = Degree.zero ∧
      utility.degreeAt 2 = Degree.one := by
  intro fire wood rules agent
  obtain ⟨utility, _, reached, quiet, _, solves, _⟩ :=
    @updateDesires_reaches_least_solution agent (by decide +kernel)
      (by decide +kernel)
  have found : (updateDesires.runOn agent).value.2.utility = utility := by
    rw [reached]
  refine ⟨utility, reached, quiet, solves, ?_, ?_⟩
  · rw [← found]
    decide +kernel
  · rw [← found]
    decide +kernel

end Agent

end Possibilistic
