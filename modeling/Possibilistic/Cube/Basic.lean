import Possibilistic.Fault

/-!
# Cubes

A cube fixes some variables to zero or one and leaves the others free; it
stands for the set of assignments that match it.  Two cubes over the same
variables merge when they fix the same variables and differ in the value of
exactly one, which the merged cube leaves free.
-/

namespace Possibilistic

/-- The value of a variable in a cube. -/
inductive Mark where
  | zero
  | one
  | free
deriving DecidableEq

namespace Mark

def toNat : Mark → Nat
  | .zero => 0
  | .one => 1
  | .free => 2

def ofInt? : Int → Option Mark
  | 0 => some .zero
  | 1 => some .one
  | 2 => some .free
  | _ => none

def symbol : Mark → String
  | .zero => "0"
  | .one => "1"
  | .free => "X"

/-- Every value that matches the second mark matches the first. -/
def covers (general special : Mark) : Bool :=
  general = .free || general = special

end Mark

/-- A mark for every variable. -/
structure Cube where
  cells : List (Atom × Mark)
deriving DecidableEq

namespace Cube

def atoms (cube : Cube) : List Atom :=
  cube.cells.map Prod.fst

def marks (cube : Cube) : List Mark :=
  cube.cells.map Prod.snd

/-- A cube from numeric marks.  Their number is looked at first. -/
def ofMarks (atoms : List Atom) (marks : List Int) : Except Fault Cube :=
  if marks.length ≠ atoms.length then
    .error (.arityMismatch "term" atoms.length marks.length)
  else
    match marks.mapM Mark.ofInt? with
    | some marks => .ok ⟨atoms.zip marks⟩
    | none => .error (.wrongMarks marks)

/-- The cube of one crisp interpretation; an atom counts as one when it is
fully true. -/
def ofInterpretation (interpretation : Interpretation) : Cube :=
  ⟨interpretation.atoms.map fun atom =>
    (atom, if (interpretation.truth atom).isOne then .one else .zero)⟩

/-- Merges cells that differ in the fixed value of exactly one variable. -/
def mergeCells? :
    List (Atom × Mark) → List (Atom × Mark) → Option (List (Atom × Mark))
  | (atom, left) :: lefts, (_, right) :: rights =>
      if left = right then
        ((atom, left) :: ·) <$> mergeCells? lefts rights
      else if left = .free || right = .free then none
      else if lefts.map Prod.snd = rights.map Prod.snd then
        some ((atom, .free) :: lefts)
      else none
  | _, _ => none

/-- The cube that two cubes over the same variables merge into. -/
def merge? (left right : Cube) : Option Cube :=
  Cube.mk <$> mergeCells? left.cells right.cells

/-- The merged cube, if the cubes have the same variables. -/
def combine (left right : Cube) : Except Fault (Option Cube) :=
  if left.atoms ≠ right.atoms then .error .differentVariables
  else .ok (left.merge? right)

/-- Every assignment that matches the second cube matches the first.  Cubes of
different lengths are compared as far as both reach. -/
def covers (general special : Cube) : Bool :=
  (general.cells.zip special.cells).all fun (left, right) =>
    left.2.covers right.2

/-- The literal of one cell. -/
def literal? : Atom × Mark → Option Formula
  | (atom, .one) => some (.atom atom)
  | (atom, .zero) => some (.neg (.atom atom))
  | (_, .free) => none

def formula (cube : Cube) : Formula :=
  Formula.conjAll (cube.cells.filterMap literal?)

def text (cube : Cube) : String :=
  "\x7b" ++ " ".intercalate
    (cube.cells.map fun (atom, mark) => atom.name ++ "=" ++ mark.symbol) ++
    "\x7d"

/-- The disjunction of the cubes' formulas, each once; one that always holds
stands for all. -/
def disjunction (cubes : List Cube) : Formula :=
  let clauses := (cubes.map formula).foldl
    (fun clauses clause =>
      if clause ∈ clauses then clauses else clauses ++ [clause]) []
  if Formula.top ∈ clauses then Formula.top else Formula.disjAll clauses

end Cube

end Possibilistic
