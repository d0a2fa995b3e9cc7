import Possibilistic.Agent.Basic
import Possibilistic.Cube.Minimization

/-!
# Deliberation

Deliberation renews the utility, then the obligations, then the goal.  The
first two iterate a pass over the rules until a pass changes nothing or a limit
is met.  Every pass replaces the agent's state, so a step that fails keeps what
was replaced before.
-/

namespace Possibilistic

/-- A course of changes to an agent that may fail, with what it costs. -/
abbrev Deliberation := ExceptT Fault (StateT Agent Inquiry)

namespace Deliberation

/-- The outcome of a course and the agent as the course leaves it. -/
def runOn {α : Type} (course : Deliberation α) (agent : Agent) :
    Inquiry (Except Fault α × Agent) :=
  StateT.run (ExceptT.run course) agent

/-- Repeats a pass, at most so many times, until it reports no change.  Tells
whether that happened. -/
def untilStable (pass : Deliberation Bool) :
    (passes : Nat) → Deliberation Bool
  | 0 => pure false
  | passes + 1 => do
      if ← pass then untilStable pass passes else pure true

/-- What happens when a phase meets its limit. -/
def meetLimit (phase : Phase) (limit : Int) : Deliberation Unit := do
  let agent ← get
  if agent.settings.deliberation.strictConvergence then
    throw (.notSettled phase limit)
  else
    Inquiry.warn (.notSettled agent.name phase limit)

/-- Repeats the pass of a phase until it is stable or meets the limit. -/
def settle (phase : Phase) (limit : Int) (pass : Deliberation Bool) :
    Deliberation Unit := do
  if ← untilStable pass limit.toNat then pure () else meetLimit phase limit

end Deliberation

namespace Agent

/-- The greatest weight of a rule whose consequent holds in a world. -/
def strongest (weighted : List (Rule × Degree)) (world : Interpretation) :
    Degree :=
  weighted.foldl
    (fun greatest (rule, weight) =>
      if (rule.consequent.truth world).isOne then max greatest weight
      else greatest)
    Degree.zero

/-- The activations of the desire rules. -/
def weighDesires (agent : Agent) : Inquiry (List (Rule × Degree)) :=
  agent.desireRules.rules.mapM fun rule => do
    pure (rule, ← agent.activation rule)

/-- Sets every world to the greatest activation of the desire rules whose
consequents hold there.  Tells whether the utility changed. -/
def desirePass : Deliberation Bool := do
  let agent ← get
  let weighted ← agent.weighDesires
  let utility := agent.utility.mapWorlds (strongest weighted)
  set { agent with utility }
  pure (utility != agent.utility)

/-- Renews the utility from zero up. -/
def updateDesires : Deliberation Unit := do
  let agent ← get
  let utility ← MonadExcept.ofExcept <|
    Distribution.uniform agent.settings.logic.maxDistributionAtoms
      agent.desireRules.consequentAtoms Degree.zero
  set { agent with utility }
  Deliberation.settle .desire
    agent.settings.deliberation.maxDesireIterations desirePass

/-- Applies the obligation rules to the obligations.  Tells whether these
changed. -/
def obligationPass : Deliberation Bool := do
  let agent ← get
  let obligations ← agent.applyRules agent.obligationRules agent.obligations
  set { agent with obligations }
  pure (obligations != agent.obligations)

/-- Renews the obligations from none up. -/
def updateObligations : Deliberation Unit := do
  modify fun agent => { agent with obligations := FactSet.empty }
  Deliberation.settle .obligation
    (← get).settings.deliberation.maxObligationIterations obligationPass

/-- The formula of the worlds whose utility reaches a level. -/
def levelFormula (agent : Agent) (level : Degree) : Formula :=
  let reached := (agent.utility.worlds.zip agent.utility.degrees).filter
    fun (_, utility) => level ≤ utility
  Cube.disjunction <| Cube.minimize <|
    reached.map fun (world, _) => Cube.ofInterpretation world

/-- The formulas of the utility levels, the highest first, without the one that
always holds. -/
def candidates (agent : Agent) : List Formula :=
  (agent.utility.levels.reverse.map agent.levelFormula).filter
    fun formula => !formula.isConstant

/-- The levels of possibility that a goal may have to reach, the highest
first. -/
def thresholds (agent : Agent) : List Degree :=
  match agent.beliefs.levels.reverse with
  | [] => [Degree.one]
  | levels => levels

/-- The first formula that is as possible as its threshold asks.  The
possibility of a formula is found once. -/
def elect (beliefs : FactBase) : List (Degree × Formula) →
    ArrivalMap Formula Degree → Inquiry (Option Formula)
  | [], _ => pure none
  | (threshold, formula) :: rest, known => do
      let possibility ←
        match known.get? formula with
        | some possibility => pure possibility
        | none => beliefs.possibility formula
      if threshold ≤ possibility then pure (some formula)
      else elect beliefs rest (known.insert formula possibility)

/-- The most desirable formula that is possible enough. -/
def electedGoal (agent : Agent) : Inquiry (Option Formula) :=
  let candidates := agent.candidates
  elect (agent.base agent.beliefs)
    (agent.thresholds.flatMap fun threshold =>
      candidates.map fun formula => (threshold, formula))
    ArrivalMap.empty

/-- Makes the elected formula the only goal. -/
def updateGoals : Deliberation Unit := do
  let agent ← get
  let goals :=
    match ← agent.electedGoal with
    | some formula => FactSet.empty.tell formula Degree.one
    | none => FactSet.empty
  set { agent with goals }

/-- Renews utility, obligations and goal. -/
def deliberate : Deliberation Unit := do
  updateDesires
  updateObligations
  updateGoals

end Agent

end Possibilistic
