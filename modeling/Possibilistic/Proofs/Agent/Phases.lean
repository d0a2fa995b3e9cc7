import Possibilistic.Proofs.Agent.Activation
import Possibilistic.Proofs.Agent.Settling

/-!
# The phases of deliberation

Each phase replaces one part of the agent: the utility, the obligations, the
goals.  Whatever its outcome, deliberation leaves alone what the agent knows and
believes and its rules.
-/

namespace Possibilistic

namespace Agent

open Deliberation

/-- The agent as it was before it deliberated. -/
def undeliberated (agent : Agent) : Agent :=
  { agent with
    obligations := FactSet.empty
    utility := Distribution.constant [] Degree.zero
    goals := FactSet.empty }

/-- What a pass over the desire rules makes of a utility. -/
def improved (agent : Agent) (utility : Distribution) : Distribution :=
  utility.mapWorlds (agent.strongestActivation utility)

theorem value_desirePass (agent : Agent) (utility : Distribution) :
    (desirePass.runOn { agent with utility }).value =
      (.ok (agent.improved utility != utility),
        { agent with utility := agent.improved utility }) := by
  have weighed : strongest ({ agent with utility } : Agent).weighDesires.value =
      agent.strongestActivation utility := by
    funext world
    exact strongest_weighDesires _ world
  simp [desirePass, weighed, improved]

/-- The utility that repeated passes leave, and whether they settled. -/
def settledUtility (agent : Agent) (start : Distribution) :
    Bool × Distribution :=
  stabilize agent.improved
    (fun utility => agent.improved utility != utility)
    agent.settings.deliberation.maxDesireIterations.toNat start

theorem value_updateDesires (agent : Agent) :
    (updateDesires.runOn agent).value =
      match Distribution.uniform agent.settings.logic.maxDistributionAtoms
        agent.desireRules.consequentAtoms Degree.zero with
      | .error fault => (.error fault, agent)
      | .ok start =>
          (settlement agent.settings .desire
              agent.settings.deliberation.maxDesireIterations
              (agent.settledUtility start).1,
            { agent with utility := (agent.settledUtility start).2 }) := by
  simp only [updateDesires, runOn_bind, runOn_get, runOn_ofExcept,
    pure_bind, resume_ok]
  cases Distribution.uniform agent.settings.logic.maxDistributionAtoms
      agent.desireRules.consequentAtoms Degree.zero with
  | error fault => rfl
  | ok start =>
      exact value_settle (value_desirePass agent) .desire
        agent.settings.deliberation.maxDesireIterations start

/-- What a pass over the obligation rules makes of obligations. -/
def renewedObligations (agent : Agent) (obligations : FactSet) : FactSet :=
  ({ agent with obligations }.applyRules agent.obligationRules
    obligations).value

theorem value_obligationPass (agent : Agent) (obligations : FactSet) :
    (obligationPass.runOn { agent with obligations }).value =
      (.ok (agent.renewedObligations obligations != obligations),
        { agent with
          obligations := agent.renewedObligations obligations }) := by
  simp [obligationPass, renewedObligations]

/-- The obligations that repeated passes leave, and whether they settled. -/
def settledObligations (agent : Agent) : Bool × FactSet :=
  stabilize agent.renewedObligations
    (fun obligations => agent.renewedObligations obligations != obligations)
    agent.settings.deliberation.maxObligationIterations.toNat FactSet.empty

theorem value_untilStable_obligationPass (agent : Agent) :
    ((untilStable obligationPass
        agent.settings.deliberation.maxObligationIterations.toNat).runOn
      { agent with obligations := FactSet.empty }).value =
        (.ok agent.settledObligations.1,
          { agent with obligations := agent.settledObligations.2 }) :=
  value_untilStable (value_obligationPass agent) _ FactSet.empty

theorem value_updateObligations (agent : Agent) :
    (updateObligations.runOn agent).value =
      (settlement agent.settings .obligation
          agent.settings.deliberation.maxObligationIterations
          agent.settledObligations.1,
        { agent with obligations := agent.settledObligations.2 }) := by
  simp only [updateObligations, runOn_bind, runOn_modify, runOn_get, pure_bind,
    resume_ok]
  exact value_settle (value_obligationPass agent) .obligation
    agent.settings.deliberation.maxObligationIterations FactSet.empty

/-- The elected formula as the only goal. -/
def electedGoals (agent : Agent) : FactSet :=
  match agent.electedGoal.value with
  | some formula => FactSet.empty.tell formula Degree.one
  | none => FactSet.empty

theorem value_updateGoals (agent : Agent) :
    (updateGoals.runOn agent).value =
      (.ok (), { agent with goals := agent.electedGoals }) := by
  simp only [updateGoals, runOn_bind, runOn_get, runOn_lift, runOn_set,
    pure_bind, resume_ok, Inquiry.value_bind, Inquiry.value_pure]
  rfl

theorem undeliberated_updateDesires (agent : Agent) :
    (updateDesires.runOn agent).value.2.undeliberated =
      agent.undeliberated := by
  rw [value_updateDesires]
  split
  · rfl
  · rfl

theorem undeliberated_updateObligations (agent : Agent) :
    (updateObligations.runOn agent).value.2.undeliberated =
      agent.undeliberated := by
  rw [value_updateObligations]
  rfl

/-- Whatever its outcome, deliberation changes nothing but the utility, the
obligations and the goals. -/
theorem undeliberated_deliberate (agent : Agent) :
    (deliberate.runOn agent).value.2.undeliberated = agent.undeliberated := by
  have afterDesires := undeliberated_updateDesires agent
  simp only [deliberate, runOn_bind, Inquiry.value_bind]
  cases desired : (updateDesires.runOn agent).value with
  | mk outcome left =>
      rw [desired] at afterDesires
      cases outcome with
      | error fault => exact afterDesires
      | ok _ =>
          have afterObligations := undeliberated_updateObligations left
          rw [afterDesires] at afterObligations
          simp only [resume_ok, runOn_bind, Inquiry.value_bind]
          cases obliged : (updateObligations.runOn left).value with
          | mk outcome settled =>
              rw [obliged] at afterObligations
              cases outcome with
              | error fault => exact afterObligations
              | ok _ =>
                  rw [resume_ok, value_updateGoals]
                  exact afterObligations

end Agent

end Possibilistic
