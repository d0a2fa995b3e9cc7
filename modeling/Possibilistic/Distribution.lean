import Possibilistic.Datum.Acceptance
import Possibilistic.Settings
import Possibilistic.World

/-!
# Possibility distributions

A distribution stores a degree for every world of a vocabulary.  The
possibility of a formula is the greatest degree of a world where it is fully
true, its necessity the complement of the greatest degree of a world where it
is fully false, and its guaranteed possibility the least degree of a world
where it is fully true.
-/

namespace Possibilistic

/-- A degree for every world of a sorted vocabulary. -/
structure Distribution where
  atoms : List Atom
  degrees : List Degree
  length_eq : degrees.length = World.count atoms

namespace Distribution

/-- The distribution that gives every world the same degree. -/
def constant (atoms : List Atom) (degree : Degree) : Distribution :=
  { atoms
    degrees := List.replicate (World.count atoms) degree
    length_eq := List.length_replicate }

/-- The vocabulary of some atoms, if it is within a limit. -/
def vocabularyWithin (limit : Int) (atoms : List Atom) :
    Except Fault (List Atom) :=
  let vocabulary := Atom.vocabulary atoms
  if limit < vocabulary.length then
    .error (.vocabularyTooLarge vocabulary.length limit)
  else .ok vocabulary

/-- The same degree for every world of a vocabulary within a limit. -/
def uniform (limit : Int) (atoms : List Atom) (degree : Degree) :
    Except Fault Distribution := do
  pure (constant (← vocabularyWithin limit atoms) degree)

/-- Offered degrees for the worlds of a sorted vocabulary. -/
def ofDegrees (atoms : List Atom) (offered : List Datum) :
    Except Fault Distribution := do
  if offered.length ≠ World.count atoms then
    .error (.arityMismatch "possibility distribution" (World.count atoms)
      offered.length)
  let degrees ← offered.mapM Datum.asDegree
  if length_eq : degrees.length = World.count atoms then
    pure { atoms, degrees, length_eq }
  else
    .error (.arityMismatch "possibility distribution" (World.count atoms)
      degrees.length)

/-- A distribution from offered data.  Degrees for the single worlds override a
degree for all of them, which is full possibility unless one is offered. -/
def ofData (limit : Option Int) (atoms : List Atom) (degree : Option Datum)
    (degrees : Option (List Datum)) : Except Fault Distribution := do
  let vocabulary ← vocabularyWithin
    (limit.getD Settings.standard.logic.maxDistributionAtoms) atoms
  match degrees, degree with
  | some degrees, _ => ofDegrees vocabulary degrees
  | none, some degree => pure (constant vocabulary (← degree.asDegree))
  | none, none => pure (constant vocabulary Degree.one)

/-- The same vocabulary with other degrees. -/
def withDegrees (distribution : Distribution) (offered : List Datum) :
    Except Fault Distribution :=
  ofDegrees distribution.atoms offered

/-- The same vocabulary with a new degree for every world. -/
def mapWorlds (distribution : Distribution)
    (degree : Interpretation → Degree) : Distribution :=
  { atoms := distribution.atoms
    degrees := (World.all distribution.atoms).map degree
    length_eq := by simp [World.all, World.firstWorlds] }

instance : BEq Distribution :=
  ⟨fun left right =>
    left.atoms == right.atoms && left.degrees == right.degrees⟩

def size (distribution : Distribution) : Nat :=
  distribution.degrees.length

/-- The distinct degrees of the worlds, ascending. -/
def levels (distribution : Distribution) : List Degree :=
  Degree.levels distribution.degrees

/-- The worlds of the vocabulary. -/
def worlds (distribution : Distribution) : List Interpretation :=
  World.all distribution.atoms

/-- The sum of the weights of the atoms that hold, where the first weighs one
and each other twice the one before. -/
def weigh (interpretation : Interpretation) : (weight : Nat) → List Atom → Nat
  | _, [] => 0
  | weight, atom :: rest =>
      (if (interpretation.truth atom).isOne then weight else 0) +
        weigh interpretation (2 * weight) rest

/-- The number of the world in which just those atoms hold that are fully true
in an interpretation. -/
def index (distribution : Distribution) (interpretation : Interpretation) :
    Nat :=
  weigh interpretation 1 distribution.atoms

/-- The degree of the numbered world. -/
def degreeAt (distribution : Distribution) (number : Nat) : Degree :=
  (distribution.degrees[number]?).getD Degree.zero

/-- Folds over numbered worlds with their degrees, leaving as soon as the
result satisfies `done`. -/
def scanFrom (atoms : List Atom) (done : Degree → Bool)
    (step : Degree → Interpretation → Degree → Degree) :
    (number : Nat) → List Degree → Degree → Degree
  | _, [], result => result
  | number, degree :: rest, result =>
      if done result then result
      else
        scanFrom atoms done step (number + 1) rest
          (step result (World.numbered atoms number) degree)

/-- The greatest degree of a world that satisfies a condition. -/
def greatest (distribution : Distribution)
    (condition : Interpretation → Bool) : Degree :=
  scanFrom distribution.atoms Degree.isOne
    (fun result world degree =>
      if condition world then max result degree else result)
    0 distribution.degrees Degree.zero

/-- The least degree of a world that satisfies a condition. -/
def least (distribution : Distribution)
    (condition : Interpretation → Bool) : Degree :=
  scanFrom distribution.atoms Degree.isZero
    (fun result world degree =>
      if condition world then min result degree else result)
    0 distribution.degrees Degree.one

/-- How possible it is that the formula holds. -/
def possibility (distribution : Distribution) (formula : Formula) : Degree :=
  distribution.greatest fun world => (formula.truth world).isOne

/-- How certain it is that the formula holds. -/
def necessity (distribution : Distribution) (formula : Formula) : Degree :=
  (distribution.greatest fun world =>
    (formula.truth world).isZero).complement

/-- How possible every world is where the formula holds. -/
def guaranteedPossibility (distribution : Distribution) (formula : Formula) :
    Degree :=
  distribution.least fun world => (formula.truth world).isOne

/-- The possibility of an offered world or formula. -/
def possibilityOf (distribution : Distribution) (offered : Datum) :
    Except Fault Degree :=
  match offered with
  | .interpretation value =>
      .ok (distribution.degreeAt (distribution.index value))
  | _ => do
      pure (distribution.possibility
        (← offered.asFormulaItself .propositionalFormula))

def necessityOf (distribution : Distribution) (offered : Datum) :
    Except Fault Degree := do
  pure (distribution.necessity
    (← offered.asFormulaItself .propositionalFormula))

def guaranteedPossibilityOf (distribution : Distribution) (offered : Datum) :
    Except Fault Degree := do
  pure (distribution.guaranteedPossibility
    (← offered.asFormulaItself .propositionalFormula))

def indexOf (distribution : Distribution) (offered : Datum) :
    Except Fault Nat := do
  pure (distribution.index (← offered.asInterpretation))

/-- One line for each world. -/
def text (distribution : Distribution) : String :=
  let lines := (distribution.worlds.zip distribution.degrees).zipIdx.map
    fun ((world, degree), number) =>
      "World #" ++ toString number ++ " = " ++ world.text ++ ",\tu(" ++
        toString number ++ ") = " ++ degree.text
  "\x7b\n" ++ "\n".intercalate lines ++ "\n\x7d"

def shown (distribution : Distribution) : String :=
  "PossibilityDistribution(atoms=[" ++
    ", ".intercalate (distribution.atoms.map Atom.name) ++ "], worlds=" ++
    toString distribution.size ++ ")"

end Distribution

end Possibilistic
