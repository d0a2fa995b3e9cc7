import Possibilistic.Formula.Basic

/-!
# Rules

A rule asserts its consequent as far as its four antecedents hold for an agent.
Each antecedent is read under its own modality; one that is not stated is the
constant one and constrains nothing.
-/

namespace Possibilistic

/-- How an antecedent is read. -/
inductive Modality where
  | knowledge
  | belief
  | desire
  | obligation
deriving DecidableEq

namespace Modality

def all : List Modality :=
  [.knowledge, .belief, .desire, .obligation]

def name : Modality → String
  | .knowledge => "KNOWLEDGE"
  | .belief => "BELIEF"
  | .desire => "DESIRE"
  | .obligation => "OBLIGATION"

def symbol : Modality → String
  | .knowledge => "K"
  | .belief => "B"
  | .desire => "D"
  | .obligation => "O"

end Modality

structure Rule where
  consequent : Formula
  knowledge : Formula := Formula.top
  belief : Formula := Formula.top
  desire : Formula := Formula.top
  obligation : Formula := Formula.top
deriving DecidableEq

namespace Rule

def antecedent (rule : Rule) : Modality → Formula
  | .knowledge => rule.knowledge
  | .belief => rule.belief
  | .desire => rule.desire
  | .obligation => rule.obligation

/-- The rule whose antecedents a function gives. -/
def ofAntecedents (consequent : Formula) (antecedent : Modality → Formula) :
    Rule :=
  { consequent
    knowledge := antecedent .knowledge
    belief := antecedent .belief
    desire := antecedent .desire
    obligation := antecedent .obligation }

def text (rule : Rule) : String :=
  "if K(" ++ rule.knowledge.text ++ ") and B(" ++ rule.belief.text ++
    ") and D(" ++ rule.desire.text ++ ") and O(" ++ rule.obligation.text ++
    ") then " ++ rule.consequent.text

end Rule

end Possibilistic
