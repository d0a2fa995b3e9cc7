import Possibilistic.Formula.NegationNormal
import Possibilistic.NormalForm.Conjunction

/-!
# Disjunctive normal form

A disjunctive form is an ordered set of conjunctions, read as their
disjunction.  A literal gives its conjunction, a disjunction the union of its
operands' forms, and a conjunction the products of their members without the
contradictory ones.  Stacked negations that normalisation leaves in place have
no second operand to combine, so their formulas have no disjunctive form.
-/

namespace Possibilistic

/-- Conjunctions in order of arrival, no two of them equal. -/
structure DisjunctiveForm where
  terms : List Conjunction

namespace DisjunctiveForm

def empty : DisjunctiveForm :=
  ⟨[]⟩

def contains (form : DisjunctiveForm) (conjunction : Conjunction) : Bool :=
  form.terms.any (· == conjunction)

/-- Adds a conjunction at the end, unless an equal one is there. -/
def insert (form : DisjunctiveForm) (conjunction : Conjunction) :
    DisjunctiveForm :=
  if form.contains conjunction then form else ⟨form.terms ++ [conjunction]⟩

def insertAll (form : DisjunctiveForm) (conjunctions : List Conjunction) :
    DisjunctiveForm :=
  conjunctions.foldl insert form

def ofList (conjunctions : List Conjunction) : DisjunctiveForm :=
  empty.insertAll conjunctions

/-- The same conjunctions, in any order. -/
instance : BEq DisjunctiveForm :=
  ⟨fun left right =>
    left.terms.length == right.terms.length &&
      left.terms.all right.contains⟩

def formula (form : DisjunctiveForm) : Formula :=
  Formula.disjAll (form.terms.map Conjunction.formula)

/-- The texts of the conjunctions.  The false constant stands where they leave
nothing to read: without conjunctions, or for one atom without a name. -/
def text (form : DisjunctiveForm) : String :=
  let joined :=
    " | ".intercalate (form.terms.map fun term => term.formula.text)
  if joined.isEmpty then Formula.bottom.text else joined

/-- The products of every member of one form with every member of another,
without the contradictory ones. -/
def product (left right : DisjunctiveForm) : DisjunctiveForm :=
  ofList <| left.terms.flatMap fun first =>
    right.terms.filterMap first.conjoin?

end DisjunctiveForm

namespace Formula

/-- The disjunctive form over a vocabulary. -/
def disjunctiveOver? (atoms : List Atom) (formula : Formula) :
    Option DisjunctiveForm :=
  match _shape : formula.expand with
  | .atom a =>
      some (.ofList (Conjunction.ofAtom? atoms a .asserted).toList)
  | .neg (.atom a) =>
      some (.ofList (Conjunction.ofAtom? atoms a .denied).toList)
  | .neg _ => none
  | .binary .or left right => do
      let left ← left.disjunctiveOver? atoms
      let right ← right.disjunctiveOver? atoms
      pure (left.insertAll right.terms)
  | .binary _ left right => do
      let left ← left.disjunctiveOver? atoms
      let right ← right.disjunctiveOver? atoms
      pure (left.product right)
termination_by formula.rank
decreasing_by
  all_goals
    apply rank_lt_of_mem_expand
    rw [_shape]
    simp [children]

/-- The disjunctive form over the formula's own atoms. -/
def disjunctive? (formula : Formula) : Option DisjunctiveForm :=
  formula.disjunctiveOver? formula.atoms

/-- The disjunctive normal form as a formula. -/
def dnf? (formula : Formula) : Option Formula :=
  formula.disjunctive?.map DisjunctiveForm.formula

/-- The disjunctive form, with the fault of a formula that has none. -/
def disjunctive (formula : Formula) : Except Fault DisjunctiveForm :=
  match formula.disjunctive? with
  | some form => .ok form
  | none => .error .missingOperand

end Formula

end Possibilistic
