import Possibilistic.ArrivalMap
import Possibilistic.Formula.Basic

/-!
# Interpretations

An interpretation assigns degrees to atoms.  An atom without an assignment is
half true, and a constant denotes its own degree whatever is assigned to it.
The truth of a formula is computed from the truth of its atoms.
-/

namespace Possibilistic

structure Interpretation where
  degrees : ArrivalMap Atom Degree

namespace Interpretation

def empty : Interpretation :=
  ⟨ArrivalMap.empty⟩

def assign (interpretation : Interpretation) (atom : Atom) (degree : Degree) :
    Interpretation :=
  ⟨interpretation.degrees.insert atom degree⟩

def ofList (assignments : List (Atom × Degree)) : Interpretation :=
  ⟨ArrivalMap.ofList assignments⟩

/-- The assigned degree of an atom, one half where none is assigned. -/
def assigned (interpretation : Interpretation) (atom : Atom) : Degree :=
  (interpretation.degrees.get? atom).getD Degree.half

/-- The truth of an atom. -/
def truth (interpretation : Interpretation) (atom : Atom) : Degree :=
  match atom.constant? with
  | some degree => degree
  | none => interpretation.assigned atom

/-- The assigned atoms, in the order of the vocabulary. -/
def atoms (interpretation : Interpretation) : List Atom :=
  Atom.vocabulary interpretation.degrees.keys

/-- The assignments, in the order of the vocabulary. -/
def items (interpretation : Interpretation) : List (Atom × Degree) :=
  interpretation.atoms.map fun atom => (atom, interpretation.assigned atom)

/-- Every assigned degree is zero or one. -/
def isCrisp (interpretation : Interpretation) : Bool :=
  interpretation.degrees.values.all fun degree =>
    degree.isOne || degree.isZero

/-- The same atoms have equal degrees. -/
instance : BEq Interpretation :=
  ⟨fun left right => left.degrees.sameEntries right.degrees⟩

/-- The conjunction that says of every atom whether it is fully true; none for
an interpretation without atoms. -/
def minterm? (interpretation : Interpretation) : Option Formula :=
  match interpretation.items with
  | [] => none
  | items =>
      some <| Formula.conjAll <| items.map fun (atom, degree) =>
        if degree.isOne then .atom atom else .neg (.atom atom)

/-- The sum, over the atoms of the first interpretation in order of arrival, of
how far its assigned degree is from the truth of the atom in the second. -/
def totalDistance (left right : Interpretation) : Binary64 :=
  left.degrees.entries.foldl
    (fun sum (atom, degree) => sum + degree.distance (right.truth atom))
    Binary64.zero

def text (interpretation : Interpretation) : String :=
  "(" ++ ", ".intercalate
    (interpretation.items.map fun (atom, degree) =>
      atom.name ++ " → " ++ degree.text) ++ ")"

end Interpretation

/-- The degree of a formula in an interpretation. -/
def Formula.truth (interpretation : Interpretation) : Formula → Degree
  | .atom a => interpretation.truth a
  | .neg operand => (operand.truth interpretation).complement
  | .binary connective left right =>
      connective.truth (left.truth interpretation) (right.truth interpretation)

end Possibilistic
