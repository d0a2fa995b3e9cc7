import Possibilistic.Datum.Acceptance
import Possibilistic.FuzzySet
import Possibilistic.World

/-!
# Fact sets

A fact is an asserted formula, and a fact set is a fuzzy set of them.  It reads
as a conjunction of graded assertions: the set is true as far as every member
is true or its membership is low.
-/

namespace Possibilistic

abbrev FactSet := FuzzySet Formula

namespace FactSet

def empty : FactSet :=
  FuzzySet.empty

/-- Sets the membership of a fact; membership zero takes it out. -/
def tell (facts : FactSet) (fact : Formula) (degree : Degree) : FactSet :=
  FuzzySet.assign facts fact degree

def untell (facts : FactSet) (fact : Formula) : FactSet :=
  FuzzySet.remove facts fact

/-- Tells an offered fact at an offered degree, looking at the fact first. -/
def tellOffered (facts : FactSet) (fact degree : Datum) :
    Except Fault FactSet := do
  let fact ← fact.asFact
  pure (facts.tell fact (← degree.asDegree))

/-- Tells offered pairs of a fact and a degree, one after the other. -/
def tellPairs (facts : FactSet) : List Datum → Except Fault FactSet
  | [] => .ok facts
  | offered :: rest => do
      let (fact, degree) ← offered.asPair
      tellPairs (← facts.tellOffered fact degree) rest

def ofPairs (pairs : List Datum) : Except Fault FactSet :=
  empty.tellPairs pairs

/-- Whether an offered fact is a member.  Data that are no facts are no members
either, unless they cannot be looked up at all. -/
def containsOffered (facts : FactSet) (offered : Datum) : Except Fault Bool :=
  match offered with
  | .list _ | .interpretation _ => .error .notKey
  | _ =>
      match offered.asFact with
      | .ok fact => .ok (FuzzySet.contains facts fact)
      | .error _ => .ok false

/-- The crisp set of the facts whose degree reaches a level. -/
def cut (facts : FactSet) (level : Degree) : FactSet :=
  FuzzySet.cut facts level

/-- The atoms that the facts mention, from left to right. -/
def mentions (facts : FactSet) : List Atom :=
  facts.elements.flatMap Formula.mentions

/-- The vocabulary of the facts. -/
def atoms (facts : FactSet) : List Atom :=
  Atom.vocabulary facts.mentions

/-- The least, over the facts, of what is true or not asserted. -/
def truth (facts : FactSet) (interpretation : Interpretation) : Degree :=
  facts.items.foldl
    (fun truth (fact, degree) =>
      min truth (max degree.complement (fact.truth interpretation)))
    Degree.one

def truthIn (facts : FactSet) (offered : Datum) : Except Fault Degree := do
  let check ← if facts.isEmpty then pure Interpretation.empty
    else offered.asInterpretation
  pure (facts.truth check)

/-- The greatest truth of the set in a world of its vocabulary. -/
def consistency (facts : FactSet) : Degree :=
  World.search facts.atoms Degree.isOne
    (fun greatest world => max greatest (facts.truth world)) Degree.zero

/-- What the facts that are literals of one atom say of its truth.  The
membership of the atom and the complement of that of its negation both estimate
it; the mean is taken when both facts are present and when neither is. -/
def estimate (facts : FactSet) (atom : Atom) : Degree :=
  let positive := facts.membership (.atom atom)
  let negative := (facts.membership (.neg (.atom atom))).complement
  if positive.isZero && negative.isOne || !positive.isZero && !negative.isOne
  then Degree.mean positive negative
  else if positive.isZero then negative
  else positive

/-- The interpretation read off the literal facts. -/
def interpretation (facts : FactSet) : Interpretation :=
  Interpretation.ofList (facts.atoms.map fun atom =>
    (atom, facts.estimate atom))

/-- One fact, with its degree unless that is one. -/
def itemText : Formula × Degree → String
  | (fact, degree) =>
      if degree.isOne then fact.text else fact.text ++ " : " ++ degree.text

def text (facts : FactSet) : String :=
  "\x7b " ++ ", ".intercalate (facts.items.map itemText) ++ " \x7d"

end FactSet

end Possibilistic
