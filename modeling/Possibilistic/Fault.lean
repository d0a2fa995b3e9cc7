import Possibilistic.Datum.Basic

/-!
# Faults

Why a call is refused.  Each fault keeps what caused it; the message and the
named details for the caller are computed from that.  Faults that come from the
bare shape of the data, such as an overlong number or a missing part, have no
message of their own.
-/

namespace Possibilistic

/-- The phases of deliberation that iterate. -/
inductive Phase where
  | desire
  | obligation
deriving DecidableEq

def Phase.name : Phase → String
  | .desire => "desire"
  | .obligation => "obligation"

/-- What is wanted where something else was offered. -/
inductive Requirement where
  | atom
  | operatorAlone
  | formula
  | propositionalFormula
  | propositionalInterpretation
deriving DecidableEq

def Requirement.name : Requirement → String
  | .atom => "Atom"
  | .operatorAlone => "Operator node without atom"
  | .formula => "Formula"
  | .propositionalFormula => "Propositional formula"
  | .propositionalInterpretation => "Propositional interpretation"

inductive Fault where
  /-- The datum is no degree; a label tells what it was offered for. -/
  | degreeOutOfRange (value : Datum) (label : Option String)
  | arityMismatch (operator : String) (expected got : Nat)
  | missingTerm (index : Int) (arity : Nat)
  | wrongKind (required : Requirement) (offered : Datum)
  | vocabularyTooLarge (size : Nat) (limit : Int)
  /-- A phase met its limit of iterations in strict deliberation. -/
  | notSettled (phase : Phase) (iterations : Int)
  | invalidProgram (errors : List String)
  | wrongSigns (signs : List Int)
  | wrongMarks (marks : List Int)
  | notLiteral (formula : Formula)
  | outsideVocabulary (atom : Atom)
  | differentVocabularies
  | differentVariables
  | differentUniverses (left right : List Atom)
  | withoutConsequent
  | gridStepOutOfRange (step : Datum)
  | notRule (offered : Datum)
  /-- A number is too large for binary64, or for an integer. -/
  | numberTooLarge
  /-- A sequence does not have the wanted number of parts. -/
  | wrongPartCount
  /-- A connective joins too few or too many operands. -/
  | wrongOperandCount
  /-- A text does not write a number. -/
  | unreadableNumber
  /-- The datum is no sequence. -/
  | notSequence
  /-- Two data, or a datum and a number, are not ordered. -/
  | notOrdered
  /-- The datum cannot be looked up. -/
  | notKey
  /-- The second operand of a stacked negation is wanted. -/
  | missingOperand
  /-- A choice falls outside its list. -/
  | missingChoice
  /-- A formula is nested beyond what is followed. -/
  | tooDeep

namespace Fault

/-- What the caller is told. -/
def message? : Fault → Option String
  | .degreeOutOfRange value _ =>
      some ("Truth degree " ++ value.shown ++ " not in [0, 1]")
  | .arityMismatch operator expected got =>
      some ("Operator '" ++ operator ++ "' has arity " ++ toString expected ++
        ", got " ++ toString got ++ " argument(s)")
  | .missingTerm index arity =>
      some ("Term " ++ toString index ++
        " does not exist for an operator of arity " ++ toString arity)
  | .wrongKind required offered =>
      some (required.name ++ " required, got " ++ offered.kind)
  | .vocabularyTooLarge size limit =>
      some ("Propositional language too large: " ++ toString size ++
        " atoms (limit " ++ toString limit ++ ")")
  | .notSettled phase iterations =>
      some (phase.name ++ " update did not converge within " ++
        toString iterations ++ " iterations")
  | .invalidProgram errors =>
      some ("Invalid agent program: " ++ "; ".intercalate errors)
  | .wrongSigns _ => some "Conjunction signs must be -1, 0 or +1"
  | .wrongMarks _ => some "Term values must be 0, 1 or don't-care"
  | .notLiteral _ => some "Literal required"
  | .outsideVocabulary atom =>
      some ("Atom '" ++ atom.name ++ "' outside the conjunction vocabulary")
  | .differentVocabularies =>
      some "Cannot conjoin conjunctions over different vocabularies"
  | .differentVariables => some "Cannot combine terms over different variables"
  | .differentUniverses _ _ =>
      some ("Cannot calculate distance between interpretations " ++
        "not on the same universe of discourse")
  | .withoutConsequent => some "Rule has no consequent."
  | .gridStepOutOfRange step =>
      some ("Grid step " ++ step.shown ++ " not in (0, 1]")
  | .notRule offered => some ("Rule required, got " ++ offered.kind)
  | .numberTooLarge | .wrongPartCount | .wrongOperandCount | .unreadableNumber
  | .notSequence | .notOrdered | .notKey | .missingOperand | .missingChoice
  | .tooDeep => none

/-- The names of atoms as a datum. -/
def nameList (atoms : List Atom) : Datum :=
  .list (atoms.map fun atom => .text atom.name)

/-- The named details of a fault. -/
def context : Fault → List (String × Datum)
  | .degreeOutOfRange value none => [("value", value)]
  | .degreeOutOfRange value (some label) =>
      [("value", value), ("label", .text label)]
  | .arityMismatch operator expected got =>
      [("operator", .text operator), ("expected", .integer expected),
       ("got", .integer got)]
  | .missingTerm index arity =>
      [("index", .integer index), ("arity", .integer arity)]
  | .wrongKind required offered =>
      [("expected", .text required.name), ("got", .text offered.kind)]
  | .vocabularyTooLarge size limit =>
      [("size", .integer size), ("limit", .integer limit)]
  | .notSettled phase iterations =>
      [("phase", .text phase.name), ("iterations", .integer iterations)]
  | .invalidProgram errors => [("errors", .list (errors.map .text))]
  | .wrongSigns signs => [("signs", .tuple (signs.map .integer))]
  | .wrongMarks marks => [("values", .tuple (marks.map .integer))]
  | .notLiteral formula => [("formula", .text formula.text)]
  | .differentUniverses left right =>
      [("left", nameList left), ("right", nameList right)]
  | _ => []

end Fault

end Possibilistic
