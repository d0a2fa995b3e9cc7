import Possibilistic.Agent.Program
import Possibilistic.Proofs.Agent.Preparation

/-!
# Agents through calls

An agent is built from a program and then called.  Every call that succeeds ends
with a deliberation, which reads the obligations that the deliberation before it
left.  Hence a report, which tells the agent nothing, may still change the
utility, but only through these obligations.
-/

namespace Possibilistic

namespace Agent

open Deliberation

/-- The agent is built from a program and comes through calls that succeed.  The
obligations are those that its last deliberation found before it. -/
inductive Reached : FactSet → Agent → Prop where
  | created {name : String} {program : Program} {settings : Settings}
      {counted : Bool} {agent : Agent} :
      (create name program settings counted).value = .ok agent →
      Reached FactSet.empty agent
  | called {earlier : FactSet} {agent next : Agent} {call : Call} :
      Reached earlier agent →
      (call.course.runOn agent).value = (.ok (), next) →
      Reached agent.obligations next

theorem obligations_of_program {program : Program} {name : String}
    {settings : Settings} {counted : Bool} {agent : Agent}
    (built : program.agent name settings counted = .ok agent) :
    agent.obligations = FactSet.empty := by
  obtain ⟨knowledge, _, knowing⟩ := exists_of_bind_eq_ok built
  obtain ⟨beliefs, _, believing⟩ := exists_of_bind_eq_ok knowing
  obtain ⟨desireRules, _, desiring⟩ := exists_of_bind_eq_ok believing
  obtain ⟨obligationRules, _, complete⟩ := exists_of_bind_eq_ok desiring
  cases complete
  rfl

theorem value_hear {agent : Agent} {fact truth : Datum} {heard : Formula}
    {degree : Degree} (factAccepted : fact.asFact = .ok heard)
    (truthAccepted : truth.asDegreeFor "truth" = .ok degree) :
    ((hear fact truth).runOn agent).value = (deliberate.runOn agent).value := by
  simp [hear, factAccepted, truthAccepted]

/-- A call that succeeds ends with a deliberation that finds the obligations
from before. -/
theorem exists_deliberate_of_call {call : Call} {agent next : Agent}
    (success : (call.course.runOn agent).value = (.ok (), next)) :
    ∃ changed : Agent, changed.obligations = agent.obligations ∧
      (deliberate.runOn changed).value = (.ok (), next) := by
  obtain ⟨prepared, preparation, rest⟩ := value_course_eq_ok_iff.mp success
  have kept := congrArg obligations (prepare_changes preparation)
  exact ⟨prepared, kept, rest⟩

theorem exists_deliberate_of_created {name : String} {program : Program}
    {settings : Settings} {counted : Bool} {agent : Agent}
    (built : (create name program settings counted).value = .ok agent) :
    ∃ start : Agent, start.obligations = FactSet.empty ∧
      (deliberate.runOn start).value = (.ok (), agent) := by
  simp only [create] at built
  cases accepted : program.agent name settings counted with
  | error fault =>
      rw [accepted] at built
      cases built
  | ok start =>
      refine ⟨start, obligations_of_program accepted, ?_⟩
      rw [accepted] at built
      simp only [Inquiry.value_bind, Inquiry.value_pure] at built
      cases outcome : (deliberate.runOn start).value with
      | mk result settled =>
          rw [outcome] at built
          cases result with
          | error fault => cases built
          | ok _ =>
              cases built
              rfl

/-- Every agent that is reached comes out of a deliberation. -/
theorem exists_deliberate_of_reached {earlier : FactSet} {agent : Agent}
    (reached : Reached earlier agent) :
    ∃ start : Agent, start.obligations = earlier ∧
      (deliberate.runOn start).value = (.ok (), agent) := by
  cases reached with
  | created built => exact exists_deliberate_of_created built
  | called _ success => exact exists_deliberate_of_call success

/-- A report leaves a reached agent exactly as it was when renewing the utility
does, and so when no desire rule sees its obligation supported otherwise than
in the deliberation before. -/
theorem hear_keeps_reached_agent {earlier : FactSet} {agent : Agent}
    (reached : Reached earlier agent) {fact truth : Datum} {heard : Formula}
    {degree : Degree} (factAccepted : fact.asFact = .ok heard)
    (truthAccepted : truth.asDegreeFor "truth" = .ok degree) :
    (((hear fact truth).runOn agent).value = (.ok (), agent) ↔
      (updateDesires.runOn agent).value = (.ok (), agent)) ∧
    ((∀ rule ∈ agent.desireRules.rules,
      (justify earlier rule.obligation ==
        justify agent.obligations rule.obligation) = true) →
      ((hear fact truth).runOn agent).value = (.ok (), agent)) := by
  obtain ⟨start, earlierObligations, success⟩ :=
    exists_deliberate_of_reached reached
  have again := deliberate_again_iff success
  rw [value_hear factAccepted truthAccepted]
  refine ⟨again, ?_⟩
  intro supported
  have same := undeliberated_deliberate start
  rw [success] at same
  have sameRules : start.desireRules = agent.desireRules :=
    (congrArg desireRules same).symm
  apply deliberate_congr same.symm _ success
  rw [earlierObligations, sameRules]
  exact supported

/-- A duty to bring wood, a wish for wood, and a wish for fire as far as one must
have fire.  The duty that the first deliberation finds supports no other wish, so
a report changes nothing. -/
theorem hear_keeps_reached_agent_wood :
    let wood : Formula := .atom ⟨"wood"⟩
    ∃ agent : Agent,
      Reached FactSet.empty agent ∧
      agent.obligations.contains wood = true ∧
      agent.goals.contains wood = true ∧
      ((hear (.text "x") (.truth true)).runOn agent).value =
        (.ok (), agent) := by
  intro wood
  let fire : Formula := .atom ⟨"fire"⟩
  let program : Program :=
    { desireRules :=
        [.rule { consequent := wood },
          .rule { consequent := fire, obligation := fire }]
      obligationRules := [.rule { consequent := wood }] }
  have observed :
      (create "camper" program Settings.standard true).value.toOption.map
        (fun agent =>
          (agent.obligations.contains wood, agent.goals.contains wood,
            agent.desireRules.rules.all fun rule =>
              justify FactSet.empty rule.obligation ==
                justify agent.obligations rule.obligation)) =
        some (true, true, true) := by
    decide +kernel
  cases built : (create "camper" program Settings.standard true).value with
  | error fault =>
      rw [built] at observed
      cases observed
  | ok agent =>
      rw [built] at observed
      simp only [Except.toOption, Option.map_some, Option.some.injEq,
        Prod.mk.injEq, List.all_eq_true] at observed
      obtain ⟨obliged, elected, supported⟩ := observed
      have reached : Reached FactSet.empty agent := .created built
      have kept := @hear_keeps_reached_agent FactSet.empty agent reached
        (.text "x") (.truth true) (.atom ⟨"x"⟩) Degree.one rfl rfl
      exact ⟨agent, reached, obliged, elected, kept.2 supported⟩

/-- A duty to bring wood, and a wish for fire as far as one must bring wood.  The
first deliberation looks at the wish before it finds the duty, so the next
report makes the agent want a fire. -/
theorem hear_wakes_dutiful_desire :
    let wood : Formula := .atom ⟨"wood"⟩
    let fire : Formula := .atom ⟨"fire"⟩
    let program : Program :=
      { desireRules := [.rule { consequent := fire, obligation := wood }]
        obligationRules := [.rule { consequent := wood }] }
    ∃ agent next : Agent,
      Reached FactSet.empty agent ∧
      (load "camper" program Settings.standard true).value = .ok agent ∧
      ((hear (.text "x") (.truth true)).runOn agent).value = (.ok (), next) ∧
      agent.utility.degreeAt 1 = Degree.zero ∧
      next.utility.degreeAt 1 = Degree.one ∧
      agent.goals.contains fire = false ∧
      next.goals.contains fire = true := by
  intro wood fire program
  have valid : (program.validate Settings.standard).isOk = true := by
    decide +kernel
  cases validated : program.validate Settings.standard with
  | error fault =>
      rw [validated] at valid
      cases valid
  | ok _ =>
      have loaded : (load "camper" program Settings.standard true) =
          create "camper" program Settings.standard true := by
        simp only [load, validated]
      have observed :
          (create "camper" program Settings.standard true).value.toOption.map
            (fun agent =>
              let heard := ((hear (.text "x") (.truth true)).runOn agent).value
              (heard.1.isOk, agent.utility.degreeAt 1,
                heard.2.utility.degreeAt 1, agent.goals.contains fire,
                heard.2.goals.contains fire)) =
            some (true, Degree.zero, Degree.one, false, true) := by
        decide +kernel
      rw [loaded]
      cases built : (create "camper" program Settings.standard true).value with
      | error fault =>
          rw [built] at observed
          cases observed
      | ok agent =>
          rw [built] at observed
          simp only [Except.toOption, Option.map_some, Option.some.injEq,
            Prod.mk.injEq] at observed
          obtain ⟨success, before, after, without, elected⟩ := observed
          cases heard : ((hear (.text "x") (.truth true)).runOn agent).value with
          | mk outcome next =>
              rw [heard] at success after elected
              cases outcome with
              | error fault => cases success
              | ok _ =>
                  exact ⟨agent, next, .created built, rfl, heard, before, after,
                    without, elected⟩

end Agent

end Possibilistic
