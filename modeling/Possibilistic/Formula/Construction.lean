import Possibilistic.Datum.Acceptance

/-!
# Building formulas and rules

Formulas and rules are built from offered data.  Operands are accepted in
their order before anything is built, so the first bad one is reported.
-/

namespace Possibilistic

namespace Formula

def ofNegation (operand : Datum) : Except Fault Formula := do
  pure (.neg (← operand.asFormula))

/-- Whether a connective may join so many operands.  Conjunctions and
disjunctions join two or more, an exclusive disjunction just two. -/
def joins (connective : Connective) (count : Nat) : Bool :=
  count = 2 || (2 < count && connective ≠ .xor)

/-- Operands under one connective, nested to the right. -/
def ofOperands (connective : Connective) (operands : List Datum) :
    Except Fault Formula := do
  if !joins connective operands.length then
    .error .wrongOperandCount
  pure (joinAll connective top (← operands.mapM Datum.asFormula))

/-- The constant of an offered degree. -/
def ofDegree (offered : Datum) : Except Fault Formula := do
  pure (constant (← offered.asDegree))

/-- A node without an operator needs an atom and no children; a node with one
needs no atom, and as many formulas as the operator's arity. -/
def ofNode (atom : Datum) (operator : Option Operator)
    (children : List Datum) : Except Fault Formula :=
  match operator with
  | none => do
      let a ← atom.asAtom
      if children.isEmpty then pure (.atom a)
      else .error (.arityMismatch a.name 0 children.length)
  | some operator =>
      match atom with
      | .nothing => do
          if children.length ≠ operator.arity then
            .error (.arityMismatch operator.symbol operator.arity
              children.length)
          match operator, ← children.mapM (Datum.asFormulaItself .formula) with
          | .not, [operand] => pure (.neg operand)
          | .binary connective, [left, right] =>
              pure (.binary connective left right)
          | operator, operands =>
              .error (.arityMismatch operator.symbol operator.arity
                operands.length)
      | offered => .error (.wrongKind .operatorAlone offered)

/-- The immediate subformula with an index. -/
def term (formula : Formula) (index : Int) : Except Fault Formula :=
  let missing := Fault.missingTerm index formula.children.length
  if index < 0 then .error missing
  else
    match formula.children[index.toNat]? with
    | some child => .ok child
    | none => .error missing

/-- The truth of a formula in an offered interpretation. -/
def truthIn (formula : Formula) (offered : Datum) : Except Fault Degree := do
  pure (formula.truth (← offered.asInterpretation))

end Formula

/-- A rule from offered facts; an antecedent that is not offered is the
constant one. -/
def Rule.ofData (consequent : Datum)
    (antecedent : Modality → Option Datum) : Except Fault Rule := do
  let accepted (modality : Modality) : Except Fault Formula :=
    match antecedent modality with
    | some offered => offered.asFact
    | none => pure Formula.top
  pure
    { consequent := ← consequent.asFact
      knowledge := ← accepted .knowledge
      belief := ← accepted .belief
      desire := ← accepted .desire
      obligation := ← accepted .obligation }

namespace Interpretation

/-- Assigns offered degrees one after the other. -/
def assignAll (interpretation : Interpretation) :
    List (Atom × Datum) → Except Fault Interpretation
  | [] => .ok interpretation
  | (atom, offered) :: rest => do
      assignAll (interpretation.assign atom (← offered.asDegree)) rest

/-- The interpretation of a table; a repeated atom keeps its first place and
its last degree. -/
def ofTable (table : List (Atom × Datum)) : Except Fault Interpretation :=
  empty.assignAll (ArrivalMap.ofList table).entries

/-- Assigns an offered degree to an offered atom. -/
def assignOffered (interpretation : Interpretation) (atom degree : Datum) :
    Except Fault Interpretation := do
  let atom ← atom.asAtom
  pure (interpretation.assign atom (← degree.asDegree))

/-- How far an interpretation is from an offered one of the same atoms.  The
empty sum is the integer zero. -/
def distance (interpretation : Interpretation) (offered : Datum) :
    Except Fault Datum := do
  let other ← offered.asInterpretation
  if interpretation.atoms ≠ other.atoms then
    .error (.differentUniverses interpretation.atoms other.atoms)
  else if interpretation.atoms.isEmpty then
    pure (.integer 0)
  else
    pure (.number (interpretation.totalDistance other))

end Interpretation

end Possibilistic
