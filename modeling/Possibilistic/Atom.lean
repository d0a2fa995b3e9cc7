import Possibilistic.Degree
import Possibilistic.Numeral.Reading

/-!
# Atoms

An atom is a name.  A name that reads as a number from zero to one is a
constant: it denotes that degree in every interpretation.  Vocabularies list
their atoms in the order of code points, each once.
-/

namespace Possibilistic

structure Atom where
  name : String
deriving DecidableEq

namespace Atom

/-- The degree that a numeric name denotes. -/
def constant? (atom : Atom) : Option Degree := do
  Degree.ofBinary64? (← Numeral.number? atom.name)

def isConstant (atom : Atom) : Bool :=
  atom.constant?.isSome

/-- Puts an atom into a vocabulary, unless it is there. -/
def insertSorted (atom : Atom) : List Atom → List Atom
  | [] => [atom]
  | other :: rest =>
      if atom.name < other.name then atom :: other :: rest
      else if atom = other then other :: rest
      else other :: insertSorted atom rest

/-- The vocabulary of a list of atoms: sorted, without repetition. -/
def vocabulary (atoms : List Atom) : List Atom :=
  atoms.foldl (fun vocabulary atom => insertSorted atom vocabulary) []

end Atom

end Possibilistic
