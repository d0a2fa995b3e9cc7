import Possibilistic.Proofs.Agent.Phases

/-!
# Repeated deliberation

Deliberation renews the utility first, and it reads the obligations of the
deliberation before.  Nothing else of the earlier mental state is read: once the
utility comes out the same, so do the obligations and the goals.
-/

namespace Possibilistic

namespace Agent

open Deliberation

/-- The agent after its obligations and its goals are renewed. -/
def concluded (agent : Agent) : Agent :=
  let obliged := { agent with obligations := agent.settledObligations.2 }
  { obliged with goals := obliged.electedGoals }

/-- How the obligations settle. -/
def obligationSettlement (agent : Agent) : Except Fault Unit :=
  settlement agent.settings .obligation
    agent.settings.deliberation.maxObligationIterations
    agent.settledObligations.1

/-- A deliberation succeeds when the utility is renewed and the obligations
settle. -/
theorem value_deliberate_eq_ok_iff {agent final : Agent} :
    (deliberate.runOn agent).value = (.ok (), final) ↔
      ∃ desirous, (updateDesires.runOn agent).value = (.ok (), desirous) ∧
        desirous.obligationSettlement = .ok () ∧ final = desirous.concluded := by
  simp only [deliberate, runOn_bind, Inquiry.value_bind]
  cases desired : (updateDesires.runOn agent).value with
  | mk outcome desirous =>
      cases outcome with
      | error fault => simp
      | ok _ =>
          simp only [resume_ok, runOn_bind, Inquiry.value_bind,
            value_updateObligations]
          change (resume _ (desirous.obligationSettlement, _)).value = _ ↔ _
          cases settled : desirous.obligationSettlement with
          | error fault => simp [settled]
          | ok _ =>
              rw [resume_ok, value_updateGoals]
              simp [settled, concluded, eq_comm]

theorem value_updateDesires_eq_ok_iff {agent desirous : Agent} :
    (updateDesires.runOn agent).value = (.ok (), desirous) ↔
      ∃ start,
        Distribution.uniform agent.settings.logic.maxDistributionAtoms
          agent.desireRules.consequentAtoms Degree.zero = .ok start ∧
        settlement agent.settings .desire
          agent.settings.deliberation.maxDesireIterations
          (agent.settledUtility start).1 = .ok () ∧
        desirous =
          { agent with utility := (agent.settledUtility start).2 } := by
  rw [value_updateDesires]
  cases Distribution.uniform agent.settings.logic.maxDistributionAtoms
      agent.desireRules.consequentAtoms Degree.zero with
  | error fault => simp
  | ok start => simp [eq_comm]

/-- Renewed obligations and goals do not depend on those before. -/
theorem concluded_congr (agent : Agent) (obligations goals : FactSet) :
    { agent with obligations, goals }.concluded = agent.concluded ∧
      { agent with obligations, goals }.obligationSettlement =
        agent.obligationSettlement :=
  ⟨rfl, rfl⟩

/-- After a deliberation the obligations and goals are those that its utility
leads to. -/
theorem concluded_of_deliberate {agent final : Agent}
    (success : (deliberate.runOn agent).value = (.ok (), final)) :
    final.concluded = final ∧ final.obligationSettlement = .ok () := by
  obtain ⟨desirous, _, settled, equality⟩ :=
    value_deliberate_eq_ok_iff.mp success
  obtain ⟨sameConclusion, sameSettlement⟩ := concluded_congr desirous
    desirous.concluded.obligations desirous.concluded.goals
  rw [equality]
  exact ⟨sameConclusion, sameSettlement.trans settled⟩

/-- Deliberating again changes nothing exactly when renewing the utility
changes nothing. -/
theorem deliberate_again_iff {agent final : Agent}
    (success : (deliberate.runOn agent).value = (.ok (), final)) :
    (deliberate.runOn final).value = (.ok (), final) ↔
      (updateDesires.runOn final).value = (.ok (), final) := by
  obtain ⟨conclusion, settled⟩ := concluded_of_deliberate success
  constructor
  · intro again
    obtain ⟨desirous, desired, _, equality⟩ :=
      value_deliberate_eq_ok_iff.mp again
    obtain ⟨start, _, _, shape⟩ := value_updateDesires_eq_ok_iff.mp desired
    have sameUtility : final.utility = desirous.utility := by
      rw [equality]
      rfl
    have unchanged : desirous = final := by
      rw [shape] at sameUtility ⊢
      change _ = (final.settledUtility start).2 at sameUtility
      rw [← sameUtility]
    rw [unchanged] at desired
    exact desired
  · intro desired
    exact value_deliberate_eq_ok_iff.mpr
      ⟨final, desired, settled, conclusion.symm⟩

section

variable {agent : Agent} {utility : Distribution}
  {obligations goals : FactSet}
  (supported : ∀ rule ∈ agent.desireRules.rules,
    (justify agent.obligations rule.obligation ==
      justify obligations rule.obligation) = true)

include supported

theorem strongestActivation_congr :
    { agent with utility, obligations, goals }.strongestActivation =
      agent.strongestActivation := by
  funext given world
  apply Degree.ext_units
  · apply Degree.units_eq_of_le_iff
    intro level positive
    rw [le_strongestActivation_iff positive,
      le_strongestActivation_iff positive]
    have sameActive :
        { agent with utility, obligations, goals }.activeRules given level =
          agent.activeRules given level := by
      apply List.filter_congr
      intro rule present
      have sameUnits := Degree.beq_iff.mp (supported rule present)
      apply decide_eq_decide.mpr
      rw [le_activation_iff, le_activation_iff]
      simp only [must, Degree.le_iff, sameUnits]
      rfl
    rw [sameActive]
  · rw [strongestActivation, strongestActivation,
      Degree.negativeZero_maximum, Degree.negativeZero_maximum]

theorem settledUtility_congr (start : Distribution) :
    { agent with utility, obligations, goals }.settledUtility start =
      agent.settledUtility start := by
  have sameImproved :
      { agent with utility, obligations, goals }.improved = agent.improved := by
    funext given
    simp only [improved]
    rw [strongestActivation_congr supported]
  simp only [settledUtility, sameImproved]

end

theorem eq_of_undeliberated_eq {left right : Agent}
    (same : left.undeliberated = right.undeliberated) :
    right = { left with
      utility := right.utility
      obligations := right.obligations
      goals := right.goals } := by
  cases left
  cases right
  simp only [undeliberated, mk.injEq] at same ⊢
  simp [same]

/-- Of the earlier mental state a successful deliberation depends on nothing but
the support of the obligation antecedents of the desire rules. -/
theorem deliberate_congr {left right final : Agent}
    (same : left.undeliberated = right.undeliberated)
    (supported : ∀ rule ∈ left.desireRules.rules,
      (justify left.obligations rule.obligation ==
        justify right.obligations rule.obligation) = true)
    (success : (deliberate.runOn left).value = (.ok (), final)) :
    (deliberate.runOn right).value = (.ok (), final) := by
  obtain ⟨desirous, desired, settled, conclusion⟩ :=
    value_deliberate_eq_ok_iff.mp success
  obtain ⟨start, uniform, stable, shape⟩ :=
    value_updateDesires_eq_ok_iff.mp desired
  let renewed : Agent := { right with utility := (left.settledUtility start).2 }
  have renewedShape : renewed = { desirous with
      obligations := right.obligations
      goals := right.goals } := by
    rw [shape]
    simp only [renewed]
    rw [eq_of_undeliberated_eq same]
  have rightShape := eq_of_undeliberated_eq same
  have renewing : (updateDesires.runOn right).value = (.ok (), renewed) := by
    apply value_updateDesires_eq_ok_iff.mpr
    simp only [renewed]
    rw [rightShape]
    refine ⟨start, uniform, ?_, ?_⟩
    · rw [settledUtility_congr supported]
      exact stable
    · rw [settledUtility_congr supported]
  obtain ⟨sameConclusion, sameSettlement⟩ :=
    concluded_congr desirous right.obligations right.goals
  apply value_deliberate_eq_ok_iff.mpr
  refine ⟨renewed, renewing, ?_, ?_⟩
  · rw [renewedShape, sameSettlement]
    exact settled
  · rw [renewedShape, sameConclusion]
    exact conclusion

end Agent

end Possibilistic
