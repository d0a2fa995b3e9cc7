import Possibilistic.Proofs.Agent.Desires
import Possibilistic.Proofs.Agent.Interruption

/-!
# Refused calls

A call is refused for what it offers: something that is no fact, no degree or no
rule, or desire rules that mention too many atoms.  Evidence and reports are
looked at before anything changes.  Rules are not: each of the two rule lists is
put in place as soon as it has been looked at, and the size of the vocabulary is
noticed by the deliberation only.  A refused call takes no rules back.
-/

namespace Possibilistic

namespace Agent

open Deliberation

/-- A call is refused for its arguments. -/
inductive Refuses (agent : Agent) : Call → Fault → Prop where
  | evidence {fact trust : Datum} {fault : Fault} :
      acceptGraded "trust" fact trust = .error fault →
      agent.Refuses (.updateBeliefs fact trust) fault
  | report {fact truth : Datum} {fault : Fault} :
      acceptGraded "truth" fact truth = .error fault →
      agent.Refuses (.hear fact truth) fault
  | desires {desireRules : List Datum} {obligationRules : Option (List Datum)}
      {fault : Fault} :
      RuleBase.ofData desireRules = .error fault →
      agent.Refuses (.replaceRules (some desireRules) obligationRules) fault
  | duties {desireRules : Option (List Datum)} {obligationRules : List Datum}
      {accepted : RuleBase} {fault : Fault} :
      acceptRules agent.desireRules desireRules = .ok accepted →
      RuleBase.ofData obligationRules = .error fault →
      agent.Refuses (.replaceRules desireRules (some obligationRules)) fault
  | vocabulary {desireRules : List Datum}
      {obligationRules : Option (List Datum)} {accepted duties : RuleBase} :
      RuleBase.ofData desireRules = .ok accepted →
      acceptRules agent.obligationRules obligationRules = .ok duties →
      agent.settings.logic.maxDistributionAtoms <
        accepted.consequentAtoms.length →
      agent.Refuses (.replaceRules (some desireRules) obligationRules)
        (.vocabularyTooLarge accepted.consequentAtoms.length
          agent.settings.logic.maxDistributionAtoms)

/-- The desire rules that a call offers. -/
def Call.desireOffer : Call → Option (List Datum)
  | .replaceRules desireRules _ => desireRules
  | _ => none

/-- The obligation rules that a call offers. -/
def Call.dutyOffer : Call → Option (List Datum)
  | .replaceRules _ obligationRules => obligationRules
  | _ => none

/-- The rules in force after an offer, also when it is refused. -/
def rulesAfter (present : RuleBase) (offered : Option (List Datum)) :
    RuleBase :=
  (acceptRules present offered).toOption.getD present

section

variable {present accepted : RuleBase} {offered : Option (List Datum)}
  {fault : Fault}

theorem rulesAfter_of_accepted
    (allRules : acceptRules present offered = .ok accepted) :
    rulesAfter present offered = accepted := by
  simp only [rulesAfter, allRules, Except.toOption, Option.getD_some]

theorem rulesAfter_of_refused
    (notRules : acceptRules present offered = .error fault) :
    rulesAfter present offered = present := by
  simp only [rulesAfter, notRules, Except.toOption, Option.getD_none]

end

/-- Offered rules are put in place up to the first list that is refused. -/
theorem prepare_replaceRules (agent : Agent)
    (desireRules obligationRules : Option (List Datum)) :
    (Call.prepare agent (.replaceRules desireRules obligationRules)).2 =
      { agent with
        desireRules := rulesAfter agent.desireRules desireRules
        obligationRules :=
          if (acceptRules agent.desireRules desireRules).isOk then
            rulesAfter agent.obligationRules obligationRules
          else agent.obligationRules } := by
  cases desired : acceptRules agent.desireRules desireRules with
  | error fault =>
      rw [rulesAfter_of_refused desired]
      simp only [Call.prepare, desired]
      rfl
  | ok desires =>
      rw [rulesAfter_of_accepted desired]
      cases obliged : acceptRules agent.obligationRules obligationRules with
      | error fault =>
          rw [rulesAfter_of_refused obliged]
          simp only [Call.prepare, desired, obliged]
          rfl
      | ok duties =>
          rw [rulesAfter_of_accepted obliged]
          simp only [Call.prepare, desired, obliged]
          rfl

section

variable {agent : Agent} {call : Call} {fault : Fault}
  (refused : agent.Refuses call fault)

include refused

/-- A refused call fails, in its preparation or as soon as the agent
deliberates. -/
theorem value_course_of_refuses :
    (call.course.runOn agent).value =
      (.error fault, (call.prepare agent).2) := by
  cases refused with
  | evidence unfounded | report unfounded =>
      rw [value_course]
      simp only [Call.prepare, unfounded]
      rfl
  | @desires desireRules _ _ notRules =>
      have undesired : acceptRules agent.desireRules (some desireRules) =
          .error fault := notRules
      rw [value_course]
      simp only [Call.prepare, undesired]
      rfl
  | @duties _ obligationRules _ _ allRules notRules =>
      have undutiful :
          acceptRules agent.obligationRules (some obligationRules) =
            .error fault := notRules
      rw [value_course]
      simp only [Call.prepare, allRules, undutiful]
      rfl
  | @vocabulary desireRules _ accepted duties allRules dutiesAccepted
      tooMany =>
      let oversized : Agent :=
        { agent with desireRules := accepted, obligationRules := duties }
      have desiresAccepted :
          acceptRules agent.desireRules (some desireRules) = .ok accepted :=
        allRules
      have failed : (deliberate.runOn oversized).value =
          (.error _, oversized) :=
        value_deliberate_eq_error_iff.mpr
          (.inl ⟨uniform_consequentAtoms_eq_error tooMany _, rfl⟩)
      -- Both lists are in place when the deliberation counts the atoms.
      rw [value_course]
      simp only [Call.prepare, desiresAccepted, dutiesAccepted]
      exact failed

theorem prepare_of_refuses :
    (call.prepare agent).2 =
      { agent with
        desireRules := rulesAfter agent.desireRules call.desireOffer
        obligationRules :=
          if (acceptRules agent.desireRules call.desireOffer).isOk then
            rulesAfter agent.obligationRules call.dutyOffer
          else agent.obligationRules } := by
  cases refused with
  | evidence unfounded | report unfounded =>
      simp only [Call.prepare, unfounded]
      rfl
  | desires | duties | vocabulary => exact prepare_replaceRules agent _ _

/-- A refused call changes nothing unless it offers desire rules that are all
rules. -/
theorem prepare_of_refuses_eq_self
    (withoutDesires : call.desireOffer = none ∨
      (acceptRules agent.desireRules call.desireOffer).isOk = false) :
    (call.prepare agent).2 = agent := by
  rcases withoutDesires with noOffer | notRules
  · cases refused with
    | evidence unfounded | report unfounded =>
        simp only [Call.prepare, unfounded]
    | @duties desireRules _ _ _ _ notRules =>
        have noDesires : desireRules = none := noOffer
        simp only [Call.prepare, noDesires, acceptRules, notRules]
    | desires | vocabulary => cases noOffer
  · rw [prepare_of_refuses refused]
    cases refusal : acceptRules agent.desireRules call.desireOffer with
    | error reason =>
        rw [rulesAfter_of_refused refusal]
        rfl
    | ok accepted =>
        rw [refusal] at notRules
        cases notRules

end

/-- A refused call keeps the offered rules that are rules: the desire rules, and
then the obligation rules.  It changes nothing else, and nothing at all unless
it offers desire rules that are all rules. -/
theorem refused_call_keeps_offered_rules {agent : Agent} {call : Call}
    {fault : Fault} (refused : agent.Refuses call fault) :
    let desired := acceptRules agent.desireRules call.desireOffer
    ∃ left, (call.course.runOn agent).value = (.error fault, left) ∧
      left =
        { agent with
          desireRules := rulesAfter agent.desireRules call.desireOffer
          obligationRules :=
            if desired.isOk then
              rulesAfter agent.obligationRules call.dutyOffer
            else agent.obligationRules } ∧
      (call.desireOffer = none ∨ desired.isOk = false → left = agent) :=
  ⟨_, value_course_of_refuses refused, prepare_of_refuses refused,
    prepare_of_refuses_eq_self refused⟩

/-- A wish for wood in place of the wish for fire, with an obligation that is no
rule.  The call fails, and the agent has the new wish. -/
theorem refused_call_keeps_offered_rules_wood :
    let fire : Rule := { consequent := .atom ⟨"fire"⟩ }
    let wood : Rule := { consequent := .atom ⟨"wood"⟩ }
    let program : Program := { desireRules := [.rule fire] }
    let call : Call := .replaceRules (some [.rule wood]) (some [.nothing])
    ∃ agent left : Agent,
      program.agent "camper" Settings.standard true = .ok agent ∧
      agent.Refuses call (.notRule .nothing) ∧
      (call.course.runOn agent).value = (.error (.notRule .nothing), left) ∧
      agent.desireRules.rules = [fire] ∧ left.desireRules.rules = [wood] := by
  intro fire wood program call
  obtain ⟨agent, complete, sameRules⟩ : ∃ agent : Agent,
      program.agent "camper" Settings.standard true = .ok agent ∧
        agent.desireRules.rules = [fire] :=
    ⟨_, rfl, rfl⟩
  have refused : agent.Refuses call (.notRule .nothing) := .duties rfl rfl
  obtain ⟨left, failed, kept, _⟩ := refused_call_keeps_offered_rules refused
  refine ⟨agent, left, complete, refused, failed, sameRules, ?_⟩
  rw [kept]
  rfl

/-- Where a utility may have one atom, an agent that wishes for fire is offered a
wish for wood with an obligation that is no rule, and then both wishes.  Both
calls fail, and both leave the agent with what was offered. -/
theorem replaceRules_keeps_refused_rules :
    let fire : Rule := { consequent := .atom ⟨"fire"⟩ }
    let wood : Rule := { consequent := .atom ⟨"wood"⟩ }
    let program : Program := { desireRules := [.rule fire] }
    let settings : Settings := { logic := { maxDistributionAtoms := 1 } }
    ∃ agent half oversized : Agent,
      (load "camper" program settings true).value = .ok agent ∧
      agent.desireRules.rules = [fire] ∧
      ((replaceRules (some [.rule wood]) (some [.nothing])).runOn agent).value =
        (.error (.notRule .nothing), half) ∧
      half.desireRules.rules = [wood] ∧
      ((replaceRules (some [.rule fire, .rule wood]) none).runOn agent).value =
        (.error (.vocabularyTooLarge 2 1), oversized) ∧
      oversized.desireRules.rules = [fire, wood] := by
  intro fire wood program settings
  have observed :
      (load "camper" program settings true).value.toOption.map
        (fun agent =>
          (agent.desireRules.rules,
            agent.settings.logic.maxDistributionAtoms)) =
        some ([fire], 1) := by
    decide +kernel
  obtain ⟨agent, loaded, seen⟩ := exists_of_observed observed
  obtain ⟨sameRules, limit⟩ := Prod.mk.inj seen
  have notRule : agent.Refuses
      (.replaceRules (some [.rule wood]) (some [.nothing]))
      (.notRule .nothing) :=
    .duties rfl rfl
  let wishes := (RuleBase.empty.add fire).add wood
  have mentioned : wishes.consequentAtoms.length = 2 := by
    decide +kernel
  have tooMany : agent.settings.logic.maxDistributionAtoms <
      wishes.consequentAtoms.length := by
    rw [limit, mentioned]
    decide
  have oversized : agent.Refuses
      (.replaceRules (some [.rule fire, .rule wood]) none)
      (.vocabularyTooLarge wishes.consequentAtoms.length
        agent.settings.logic.maxDistributionAtoms) :=
    .vocabulary rfl rfl tooMany
  rw [limit, mentioned] at oversized
  exact ⟨agent, _, _, loaded, sameRules, value_course_of_refuses notRule, rfl,
    value_course_of_refuses oversized, rfl⟩

end Agent

end Possibilistic
