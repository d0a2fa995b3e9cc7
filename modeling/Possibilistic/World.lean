import Possibilistic.Interpretation

/-!
# Worlds

A world is a crisp interpretation of a vocabulary.  The worlds of `n` atoms are
numbered below `2 ^ n`: bit `i` of the number tells whether atom `i` is true,
so the first atom toggles fastest.  Searches visit the worlds in this order and
may stop early.
-/

namespace Possibilistic

-- Powers of natural numbers are those of the core library everywhere.
attribute [local instance (2000)] instPowNat

namespace World

/-- The degree of a bit. -/
def bitDegree (bit : Bool) : Degree :=
  if bit then Degree.one else Degree.zero

/-- The bit of an integer in two's complement, which never ends. -/
def bit (number : Int) (position : Nat) : Bool :=
  (number >>> position) % 2 == 1

/-- Assigns the bits of a number, from the given position on. -/
def assignBits (number : Int) : (position : Nat) → List Atom →
    Interpretation → Interpretation
  | _, [], interpretation => interpretation
  | position, atom :: rest, interpretation =>
      assignBits number (position + 1) rest
        (interpretation.assign atom (bitDegree (bit number position)))

/-- The numbered interpretation of atoms in the given order. -/
def numbered (atoms : List Atom) (number : Int) : Interpretation :=
  assignBits number 0 atoms Interpretation.empty

/-- How many worlds a vocabulary has. -/
def count (atoms : List Atom) : Nat :=
  2 ^ atoms.length

/-- Folds over so many consecutive numbers, leaving as soon as the result
satisfies `done`. -/
def foldUntil {β : Type} (done : β → Bool) (step : β → Nat → β) :
    (remaining : Nat) → (next : Nat) → β → β
  | 0, _, result => result
  | remaining + 1, next, result =>
      if done result then result
      else foldUntil done step remaining (next + 1) (step result next)

/-- Folds over the worlds of a vocabulary in their order, leaving as soon as
the result satisfies `done`. -/
def search {β : Type} (atoms : List Atom) (done : β → Bool)
    (step : β → Interpretation → β) (start : β) : β :=
  foldUntil done (fun result number => step result (numbered atoms number))
    (count atoms) 0 start

/-- The first worlds of a vocabulary, at most so many. -/
def firstWorlds (atoms : List Atom) (most : Nat) : List Interpretation :=
  (List.range (min most (count atoms))).map fun (number : Nat) =>
    numbered atoms number

/-- Every world of a vocabulary. -/
def all (atoms : List Atom) : List Interpretation :=
  firstWorlds atoms (count atoms)

end World

end Possibilistic
