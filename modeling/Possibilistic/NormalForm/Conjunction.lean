import Possibilistic.Fault

/-!
# Conjunctions of literals

A conjunction says of every atom of its vocabulary whether it is asserted,
denied, or left open, and bounds its own truth by a degree that stands for the
constants among its conjuncts.  Joining two conjunctions fails when one asserts
what the other denies, or when the bound vanishes.
-/

namespace Possibilistic

/-- What a conjunction says of an atom. -/
inductive Sign where
  | denied
  | absent
  | asserted
deriving DecidableEq

namespace Sign

def toInt : Sign → Int
  | .denied => -1
  | .absent => 0
  | .asserted => 1

def ofInt? : Int → Option Sign
  | -1 => some .denied
  | 0 => some .absent
  | 1 => some .asserted
  | _ => none

/-- What two signs say together; none when they clash. -/
def conjoin? : Sign → Sign → Option Sign
  | .absent, sign => some sign
  | sign, .absent => some sign
  | .asserted, .asserted => some .asserted
  | .denied, .denied => some .denied
  | _, _ => none

end Sign

/-- A sign for every atom, and a bound. -/
structure Conjunction where
  literals : List (Atom × Sign)
  bound : Degree

namespace Conjunction

/-- The atoms of the vocabulary, in its order. -/
def atoms (conjunction : Conjunction) : List Atom :=
  conjunction.literals.map Prod.fst

def signs (conjunction : Conjunction) : List Sign :=
  conjunction.literals.map Prod.snd

/-- Equal signs over the same vocabulary, with equal bounds. -/
instance : BEq Conjunction :=
  ⟨fun left right =>
    left.literals == right.literals && left.bound == right.bound⟩

/-- A conjunction from numeric signs.  The bound is looked at first, then the
number of signs, then the signs. -/
def ofSigns (atoms : List Atom) (signs : List Int) (bound : Degree) :
    Except Fault Conjunction :=
  if signs.length ≠ atoms.length then
    .error (.arityMismatch "conjunction" atoms.length signs.length)
  else
    match signs.mapM Sign.ofInt? with
    | some signs => .ok ⟨atoms.zip signs, bound⟩
    | none => .error (.wrongSigns signs)

/-- The conjunction that says nothing. -/
def empty (atoms : List Atom) : Conjunction :=
  ⟨atoms.map (·, .absent), Degree.one⟩

/-- The conjunction that says one thing of one atom. -/
def single (atoms : List Atom) (atom : Atom) (sign : Sign) : Conjunction :=
  ⟨atoms.map fun other => (other, if other = atom then sign else .absent),
    Degree.one⟩

/-- The conjunction of an atom or of its negation.  A constant becomes the
bound, and a vanishing bound leaves nothing. -/
def ofAtom? (atoms : List Atom) (atom : Atom) (sign : Sign) :
    Option Conjunction :=
  match atom.constant? with
  | some degree =>
      let bound := if sign = .denied then degree.complement else degree
      if bound.isZero then none else some { empty atoms with bound }
  | none => some (single atoms atom sign)

/-- The atom and sign of a literal. -/
def literal? : Formula → Option (Atom × Sign)
  | .atom a => some (a, .asserted)
  | .neg (.atom a) => some (a, .denied)
  | _ => none

/-- The conjunction of an offered literal over a vocabulary. -/
def ofLiteral (atoms : List Atom) (formula : Formula) :
    Except Fault (Option Conjunction) :=
  match literal? formula with
  | none => .error (.notLiteral formula)
  | some (atom, sign) =>
      if atom.isConstant || atoms.contains atom then
        .ok (ofAtom? atoms atom sign)
      else
        .error (.outsideVocabulary atom)

/-- What the conjunction says of an atom. -/
def sign (conjunction : Conjunction) (atom : Atom) : Sign :=
  match conjunction.literals.find? fun literal => literal.1 = atom with
  | some literal => literal.2
  | none => .absent

/-- Joins literals over the same vocabulary, unless signs clash. -/
def conjoinLiterals? :
    List (Atom × Sign) → List (Atom × Sign) → Option (List (Atom × Sign))
  | (atom, left) :: lefts, (_, right) :: rights => do
      let sign ← left.conjoin? right
      let rest ← conjoinLiterals? lefts rights
      pure ((atom, sign) :: rest)
  | _, _ => some []

/-- Both conjunctions together; none when they contradict each other. -/
def conjoin? (left right : Conjunction) : Option Conjunction := do
  let literals ← conjoinLiterals? left.literals right.literals
  let bound := min left.bound right.bound
  if bound.isZero then none else some ⟨literals, bound⟩

/-- Both conjunctions together, if they have the same vocabulary. -/
def conjoin (left right : Conjunction) :
    Except Fault (Option Conjunction) :=
  if left.atoms ≠ right.atoms then .error .differentVocabularies
  else .ok (left.conjoin? right)

/-- The formula of one literal. -/
def literalFormula? : Atom × Sign → Option Formula
  | (atom, .asserted) => some (.atom atom)
  | (atom, .denied) => some (.neg (.atom atom))
  | (_, .absent) => none

/-- The literals in order, then the bound unless it is one. -/
def formula (conjunction : Conjunction) : Formula :=
  Formula.conjAll <|
    conjunction.literals.filterMap literalFormula? ++
      if conjunction.bound.isOne then []
      else [Formula.constant conjunction.bound]

end Conjunction

end Possibilistic
