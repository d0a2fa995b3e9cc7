import Possibilistic.Distribution
import Possibilistic.FactBase.Necessity
import Possibilistic.Rule.Base

/-!
# Agents

An agent has knowledge and beliefs, whose degrees are levels of necessity, and
rules that generate desires and obligations.  From these it derives a utility
over the worlds of its desires, a set of obligations, and a goal.  The modal
questions read this state and change nothing.
-/

namespace Possibilistic

structure Agent where
  name : String
  settings : Settings
  /-- Whether the agent's entailment checks are counted. -/
  counted : Bool
  knowledge : FactSet
  beliefs : FactSet
  desireRules : RuleBase
  obligationRules : RuleBase
  obligations : FactSet
  utility : Distribution
  goals : FactSet

namespace Agent

/-- Facts as a base that reports to the agent. -/
def base (agent : Agent) (facts : FactSet) : FactBase :=
  { facts
    counted := agent.counted
    warnAbove := agent.settings.logic.enumerationWarnAtoms }

def knows (agent : Agent) (fact : Formula) : Inquiry Degree :=
  (agent.base agent.knowledge).necessity fact

def believes (agent : Agent) (fact : Formula) : Inquiry Degree :=
  (agent.base agent.beliefs).necessity fact

/-- How possible the beliefs leave a formula. -/
def considersPossible (agent : Agent) (fact : Formula) : Inquiry Degree :=
  (agent.base agent.beliefs).possibility fact

/-- The utility that is guaranteed by a formula. -/
def desires (agent : Agent) (fact : Formula) : Degree :=
  match fact.constant? with
  | some degree => degree
  | none => agent.utility.guaranteedPossibility fact

/-- How far facts support a formula.  A member is supported at its membership,
any other literal not at all, and a compound formula as its parts are. -/
def justify (facts : FactSet) (formula : Formula) : Degree :=
  match formula.constant? with
  | some degree => degree
  | none =>
      let membership := facts.membership formula
      if !membership.isZero then membership
      else if formula.isLiteral then Degree.zero
      else
        match formula with
        | .atom _ => Degree.zero
        | .neg operand => (justify facts operand).complement
        | .binary connective left right =>
            connective.truth (justify facts left) (justify facts right)

/-- How far the obligations support a formula. -/
def must (agent : Agent) (fact : Formula) : Degree :=
  justify agent.obligations fact

/-- How far the agent's state triggers a rule. -/
def activation (agent : Agent) (rule : Rule) : Inquiry Degree := do
  let known ← agent.knows rule.knowledge
  let believed ← agent.believes rule.belief
  pure (min (min (min known believed) (agent.desires rule.desire))
    (agent.must rule.obligation))

/-- One pass over rules.  A consequent is told at the greatest of the
activations of its rules and of its support by what was told before. -/
def applyRules (agent : Agent) (rules : RuleBase) (previous : FactSet) :
    Inquiry FactSet :=
  rules.rules.foldlM
    (fun result rule => do
      let activation ← agent.activation rule
      let consequent := rule.consequent
      pure (result.tell consequent
        (max (max activation (result.membership consequent))
          (justify previous consequent))))
    FactSet.empty

end Agent

end Possibilistic
