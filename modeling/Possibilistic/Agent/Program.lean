import Possibilistic.Agent.Deliberation

/-!
# Agent programs

A program is what a loader offers for an agent: facts with degrees, and rules.
Checking it lists everything that is wrong, each entry under its section and
number.  An agent is built from a program and deliberates at once.
-/

namespace Possibilistic

/-- Offered facts and rules. -/
structure Program where
  knowledge : List Datum := []
  beliefs : List Datum := []
  desireRules : List Datum := []
  obligationRules : List Datum := []

namespace Program

/-- The place of an entry. -/
def place (part : String) (number : Nat) : String :=
  part ++ "[" ++ toString number ++ "]"

/-- What is wrong with an offered degree.  Only numbers are degrees here, and a
truth value always is one. -/
def degreeErrors (place : String) (offered : Datum) :
    Except Fault (List String) :=
  let outOfRange := place ++ ": degree " ++ offered.shown ++ " not in [0, 1]"
  match offered with
  | .truth _ => .ok []
  | .integer value =>
      match Binary64.ofInt? value with
      | none => .error .numberTooLarge
      | some _ => .ok (if 0 ≤ value ∧ value ≤ 1 then [] else [outOfRange])
  | .number value =>
      .ok (if Binary64.zero.le value && value.le Binary64.one then []
        else [outOfRange])
  | _ => .ok [place ++ ": degree " ++ offered.shown ++ " is not a number"]

def factErrors (place : String) (offered : Datum) : List String :=
  match offered with
  | .fact _ | .formula _ => []
  | _ => [place ++ ": " ++ offered.kind ++ " is not a Fact or Formula"]

/-- What is wrong with an offered pair of a fact and a degree. -/
def pairErrors (place : String) (offered : Datum) :
    Except Fault (List String) :=
  match offered.asPair with
  | .error _ =>
      .ok [place ++ ": expected a (fact, degree) pair, got " ++ offered.shown]
  | .ok (fact, degree) => do
      pure (factErrors place fact ++ (← degreeErrors place degree))

def pairsErrors (part : String) (offered : List Datum) :
    Except Fault (List String) := do
  let errors ← offered.zipIdx.mapM fun (pair, number) =>
    pairErrors (place part number) pair
  pure errors.flatten

/-- What is wrong with an offered rule: it is none, or its consequent mentions
nothing but constants. -/
def ruleErrors (place : String) (offered : Datum) : List String :=
  match offered with
  | .rule rule =>
      if rule.consequent.mentions.isEmpty then
        [place ++ ": consequent '" ++ rule.consequent.text ++ "' has no atoms"]
      else []
  | _ => [place ++ ": " ++ offered.kind ++ " is not a Rule"]

def rulesErrors (part : String) (offered : List Datum) : List String :=
  offered.zipIdx.flatMap fun (rule, number) =>
    ruleErrors (place part number) rule

/-- The atoms of an offered rule's consequent. -/
def consequentMentions : Datum → List Atom
  | .rule rule => rule.consequent.mentions
  | _ => []

/-- Whether the desires mention more atoms than a distribution may have. -/
def vocabularyErrors (settings : Settings) (offered : List Datum) :
    List String :=
  let size := (Atom.vocabulary (offered.flatMap consequentMentions)).length
  let limit := settings.logic.maxDistributionAtoms
  if limit < size then
    ["desire rules mention " ++ toString size ++ " atoms (limit " ++
      toString limit ++ ")"]
  else []

/-- Everything that is wrong with a program. -/
def errors (program : Program) (settings : Settings) :
    Except Fault (List String) := do
  pure ((← pairsErrors "knowledge" program.knowledge) ++
    (← pairsErrors "beliefs" program.beliefs) ++
    rulesErrors "desires" program.desireRules ++
    rulesErrors "obligations" program.obligationRules ++
    vocabularyErrors settings program.desireRules)

/-- Refuses a program with errors. -/
def validate (program : Program) (settings : Settings) :
    Except Fault Unit := do
  let errors ← program.errors settings
  if errors.isEmpty then pure () else .error (.invalidProgram errors)

/-- The agent of a program before it deliberates. -/
def agent (program : Program) (name : String) (settings : Settings)
    (counted : Bool) : Except Fault Agent := do
  pure
    { name, settings, counted
      knowledge := ← FactSet.ofPairs program.knowledge
      beliefs := ← FactSet.ofPairs program.beliefs
      desireRules := ← RuleBase.ofData program.desireRules
      obligationRules := ← RuleBase.ofData program.obligationRules
      obligations := FactSet.empty
      utility := Distribution.constant [] Degree.zero
      goals := FactSet.empty }

end Program

namespace Agent

def standardName : String :=
  "New Agent"

/-- Builds an agent and lets it deliberate. -/
def create (name : String) (program : Program) (settings : Settings)
    (counted : Bool) : Inquiry (Except Fault Agent) :=
  match program.agent name settings counted with
  | .error fault => pure (.error fault)
  | .ok agent => do
      let (outcome, settled) ← deliberate.runOn agent
      pure (outcome.map fun _ => settled)

/-- Builds an agent from a program that is checked first. -/
def load (name : String) (program : Program) (settings : Settings)
    (counted : Bool) : Inquiry (Except Fault Agent) :=
  match program.validate settings with
  | .error fault => pure (.error fault)
  | .ok _ => create name program settings counted

end Agent

end Possibilistic
