import Possibilistic.Proofs.Agent.Election
import Possibilistic.Proofs.Agent.Obligations
import Possibilistic.Proofs.Agent.Repetition
import Possibilistic.Proofs.FactBase.Congruence

/-!
# Agents that are alike

Agents are alike when they differ at most in the order in which facts and rules
arrived.  Each phase of deliberation ends alike for agents that are alike, and
leaves them alike.
-/

namespace Possibilistic

namespace Agent

open Deliberation

/-- The agents have the same settings, memberships, rules, utility and goals. -/
structure Alike (left right : Agent) : Prop where
  settings : left.settings = right.settings
  knowledge : left.knowledge.membership = right.knowledge.membership
  beliefs : left.beliefs.membership = right.beliefs.membership
  desireRules : ∀ rule,
    rule ∈ left.desireRules.rules ↔ rule ∈ right.desireRules.rules
  obligationRules : ∀ rule,
    rule ∈ left.obligationRules.rules ↔ rule ∈ right.obligationRules.rules
  obligations : left.obligations.membership = right.obligations.membership
  utility : left.utility = right.utility
  goals : left.goals = right.goals

namespace Alike

variable {left right : Agent} (alike : Alike left right)

include alike

theorem withUtility (utility : Distribution) :
    Alike { left with utility } { right with utility } :=
  { alike with utility := rfl }

theorem withObligations {obligations others : FactSet}
    (same : obligations.membership = others.membership) :
    Alike { left with obligations } { right with obligations := others } :=
  { alike with obligations := same }

theorem value_activation (rule : Rule) :
    (left.activation rule).value = (right.activation rule).value := by
  have desired : left.desires rule.desire = right.desires rule.desire := by
    simp only [desires, alike.utility]
  have required : left.must rule.obligation = right.must rule.obligation :=
    justify_congr (fun fact _ => congrFun alike.obligations fact) _
  have known : (left.knows rule.knowledge).value =
      (right.knows rule.knowledge).value :=
    FactBase.value_necessity_congr alike.knowledge _
  have believed : (left.believes rule.belief).value =
      (right.believes rule.belief).value :=
    FactBase.value_necessity_congr alike.beliefs _
  rw [Agent.value_activation, Agent.value_activation, known, believed, desired,
    required]

theorem strongestActivation :
    left.strongestActivation = right.strongestActivation := by
  funext utility world
  apply Degree.ext_units
  · apply Degree.units_eq_of_le_iff
    intro level positive
    rw [le_strongestActivation_iff positive,
      le_strongestActivation_iff positive]
    simp only [activeRules, List.mem_filter, alike.desireRules,
      (alike.withUtility utility).value_activation]
  · rw [Agent.strongestActivation, Agent.strongestActivation,
      Degree.negativeZero_maximum, Degree.negativeZero_maximum]

theorem settledUtility : left.settledUtility = right.settledUtility := by
  have improves : left.improved = right.improved := by
    funext utility
    simp only [improved, alike.strongestActivation]
  funext start
  simp only [Agent.settledUtility, improves, alike.settings]

theorem consequentAtoms :
    left.desireRules.consequentAtoms = right.desireRules.consequentAtoms := by
  apply Atom.eq_of_ascending (Atom.ascending_vocabulary _)
    (Atom.ascending_vocabulary _)
  intro atom
  simp only [Atom.mem_vocabulary, List.mem_flatMap, alike.desireRules]

theorem membership_renewedObligations {obligations others : FactSet}
    (same : obligations.membership = others.membership) :
    (left.renewedObligations obligations).membership =
      (right.renewedObligations others).membership := by
  have supported : justify obligations = justify others :=
    funext (justify_congr fun fact _ => congrFun same fact)
  funext fact
  apply FuzzySet.membership_eq_of_le_iff
  intro level positive
  rw [le_membership_renewedObligations_iff positive,
    le_membership_renewedObligations_iff positive]
  simp only [alike.obligationRules, supported,
    (alike.withObligations same).value_activation]

theorem settledObligations :
    left.settledObligations.1 = right.settledObligations.1 ∧
      left.settledObligations.2.membership =
        right.settledObligations.2.membership := by
  rw [Agent.settledObligations, Agent.settledObligations, alike.settings]
  apply @stabilize_related FactSet fun obligations others =>
    obligations.membership = others.membership
  · intro obligations others same
    exact alike.membership_renewedObligations same
  · intro obligations others same
    apply congrArg not
    apply Bool.eq_iff_iff.mpr
    rw [FuzzySet.beq_iff, FuzzySet.beq_iff,
      alike.membership_renewedObligations same, same]
  · rfl

theorem electedGoals : left.electedGoals = right.electedGoals := by
  have possible : ∀ formula, (left.considersPossible formula).value =
      (right.considersPossible formula).value :=
    FactBase.value_possibility_congr alike.beliefs
  have levels : left.beliefs.levels = right.beliefs.levels :=
    FuzzySet.levels_congr alike.beliefs
  have formulas : left.levelFormula = right.levelFormula := by
    funext level
    simp only [levelFormula, alike.utility]
  have elected : left.electedGoal.value = right.electedGoal.value := by
    rw [value_electedGoal, value_electedGoal]
    simp only [thresholds, candidates, formulas, possible, levels,
      alike.utility]
  simp only [Agent.electedGoals, elected]

end Alike

/-- The course ends alike for agents that are alike, and leaves them alike. -/
def KeepsAlike (course : Deliberation Unit) : Prop :=
  ∀ left right, Alike left right →
    (course.runOn left).value.1 = (course.runOn right).value.1 ∧
      Alike (course.runOn left).value.2 (course.runOn right).value.2

theorem KeepsAlike.bind {course : Deliberation Unit}
    {next : Unit → Deliberation Unit} (first : KeepsAlike course)
    (rest : KeepsAlike (next ())) : KeepsAlike (course >>= next) := by
  intro left right alike
  obtain ⟨sameOutcome, stillAlike⟩ := first left right alike
  simp only [runOn_bind, Inquiry.value_bind]
  cases leftRun : (course.runOn left).value with
  | mk leftOutcome leftAfter =>
      cases rightRun : (course.runOn right).value with
      | mk rightOutcome rightAfter =>
          rw [leftRun, rightRun] at sameOutcome stillAlike
          cases sameOutcome
          cases leftOutcome with
          | error fault => exact ⟨rfl, stillAlike⟩
          | ok _ => exact rest leftAfter rightAfter stillAlike

theorem keepsAlike_updateDesires : KeepsAlike updateDesires := by
  intro left right alike
  rw [value_updateDesires, value_updateDesires, alike.settings,
    alike.consequentAtoms, alike.settledUtility]
  cases Distribution.uniform right.settings.logic.maxDistributionAtoms
      right.desireRules.consequentAtoms Degree.zero with
  | error fault => exact ⟨rfl, alike⟩
  | ok start => exact ⟨rfl, { alike with settings := rfl, utility := rfl }⟩

theorem keepsAlike_updateObligations : KeepsAlike updateObligations := by
  intro left right alike
  obtain ⟨sameOutcome, sameMemberships⟩ := alike.settledObligations
  rw [value_updateObligations, value_updateObligations, alike.settings,
    sameOutcome]
  exact
    ⟨rfl, { alike with settings := rfl, obligations := sameMemberships }⟩

theorem keepsAlike_updateGoals : KeepsAlike updateGoals := by
  intro left right alike
  rw [value_updateGoals, value_updateGoals]
  exact ⟨rfl, { alike with goals := alike.electedGoals }⟩

/-- Agents that are alike deliberate alike, whether they succeed or not. -/
theorem keepsAlike_deliberate : KeepsAlike deliberate :=
  keepsAlike_updateDesires.bind
    (keepsAlike_updateObligations.bind keepsAlike_updateGoals)

end Agent

end Possibilistic
