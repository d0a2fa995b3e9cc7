import Possibilistic.Datum.Comparison
import Possibilistic.Fault

/-!
# Accepting data

What a datum is accepted as, and the fault when it is not.  A degree may be
offered as a truth value, a number or the text of one.  A formula may be
offered as an atom or as the name of one, and a fact as a formula.
-/

namespace Possibilistic

namespace Datum

/-- A number offered as a degree. -/
def asDegreeOf (offered : Datum) (number : Binary64) :
    Except Fault Degree :=
  match Degree.ofBinary64? number with
  | some degree => .ok degree
  | none => .error (.degreeOutOfRange offered none)

def asDegree (offered : Datum) : Except Fault Degree :=
  match offered with
  | .truth true => .ok Degree.one
  | .truth false => .ok Degree.zero
  | .integer value =>
      match Binary64.ofInt? value with
      | some nearest => offered.asDegreeOf nearest
      | none => .error .numberTooLarge
  | .number value => offered.asDegreeOf value
  | .text written =>
      match Numeral.number? written with
      | some nearest => offered.asDegreeOf nearest
      | none => .error (.degreeOutOfRange offered none)
  | _ => .error (.degreeOutOfRange offered none)

/-- A degree offered for a purpose that the fault is to name. -/
def asDegreeFor (label : String) (offered : Datum) : Except Fault Degree :=
  match offered.asDegree with
  | .error (.degreeOutOfRange value _) =>
      .error (.degreeOutOfRange value (some label))
  | outcome => outcome

def asFormula (offered : Datum) : Except Fault Formula :=
  match offered with
  | .formula value => .ok value
  | .atom value => .ok (.atom value)
  | .text name => .ok (.atom ⟨name⟩)
  | _ => .error (.wrongKind .formula offered)

def asFact (offered : Datum) : Except Fault Formula :=
  match offered with
  | .fact value => .ok value
  | _ => offered.asFormula

/-- A formula itself, and nothing that stands for one. -/
def asFormulaItself (required : Requirement) (offered : Datum) :
    Except Fault Formula :=
  match offered with
  | .formula value => .ok value
  | _ => .error (.wrongKind required offered)

def asInterpretation (offered : Datum) : Except Fault Interpretation :=
  match offered with
  | .interpretation value => .ok value
  | _ => .error (.wrongKind .propositionalInterpretation offered)

def asAtom (offered : Datum) : Except Fault Atom :=
  match offered with
  | .atom value => .ok value
  | _ => .error (.wrongKind .atom offered)

def asRule (offered : Datum) : Except Fault Rule :=
  match offered with
  | .rule value => .ok value
  | _ => .error (.notRule offered)

/-- The two parts of a sequence of two. -/
def bothParts : List Datum → Except Fault (Datum × Datum)
  | [first, second] => .ok (first, second)
  | _ => .error .wrongPartCount

/-- A pair: a tuple or a list of two data, or a text of two characters. -/
def asPair (offered : Datum) : Except Fault (Datum × Datum) :=
  match offered with
  | .tuple parts => bothParts parts
  | .list parts => bothParts parts
  | .text value => bothParts (value.toList.map fun c => .text (String.singleton c))
  | _ => .error .notSequence

/-- The numeric value of a truth value or number. -/
def asNumber (offered : Datum) : Except Fault Binary64 :=
  match offered with
  | .truth value => .ok (if value then Binary64.one else Binary64.zero)
  | .integer value =>
      match Binary64.ofInt? value with
      | some nearest => .ok nearest
      | none => .error .numberTooLarge
  | .number value => .ok value
  | _ => .error .notOrdered

/-- The numeric value of a truth value or number, or of the text of one. -/
def asWrittenNumber (offered : Datum) : Except Fault Binary64 :=
  match offered with
  | .text written =>
      match Numeral.number? written with
      | some nearest => .ok nearest
      | none => .error .unreadableNumber
  | _ => offered.asNumber

end Datum

/-- How a degree compares with a number. -/
structure Degree.Comparison where
  atLeast : Bool
  distance : Binary64
  below : Bool
  equal : Bool

/-- Compares a degree with an offered number.  The distance is taken from the
nearest binary64 number, the order from the number itself. -/
def Degree.compareWith (degree : Degree) (offered : Datum) :
    Except Fault Degree.Comparison := do
  let number ← offered.asWrittenNumber
  let own := Datum.number degree.toBinary64
  match own.below? offered with
  | none => .error .notOrdered
  | some below =>
      pure
        { atLeast := number.le degree.toBinary64
          distance := (degree.toBinary64 - number).abs
          below
          equal := own.equals offered }

/-- The least of raw data, accepted as a degree; one when there are none. -/
def Degree.leastOf (offered : List Datum) : Except Fault Degree :=
  match offered with
  | [] => .ok Degree.one
  | first :: rest =>
      match Datum.least? first rest with
      | some least => least.asDegree
      | none => .error .notOrdered

/-- The greatest of raw data, accepted as a degree; zero when there are none. -/
def Degree.greatestOf (offered : List Datum) : Except Fault Degree :=
  match offered with
  | [] => .ok Degree.zero
  | first :: rest =>
      match Datum.greatest? first rest with
      | some greatest => greatest.asDegree
      | none => .error .notOrdered

/-- The degree that an operator gives to offered degrees. -/
def Operator.truth (operator : Operator) (offered : List Datum) :
    Except Fault Degree :=
  if offered.length ≠ operator.arity then
    .error (.arityMismatch operator.symbol operator.arity offered.length)
  else do
    match operator, ← offered.mapM Datum.asDegree with
    | .not, [degree] => pure degree.complement
    | .binary connective, [left, right] => pure (connective.truth left right)
    | operator, degrees =>
        .error (.arityMismatch operator.symbol operator.arity degrees.length)

end Possibilistic
