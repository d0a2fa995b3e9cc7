import Possibilistic.Atom

/-!
# Formulas

A formula is an atom, a negation, or two formulas joined by a connective.
Equality is of structure: two formulas are the same when they are written the
same way.
-/

namespace Possibilistic

/-- The connectives of two formulas. -/
inductive Connective where
  | and
  | or
  | xor
deriving DecidableEq

/-- Every operator of the language. -/
inductive Operator where
  | not
  | binary (connective : Connective)
deriving DecidableEq

inductive Formula where
  | atom (symbol : Atom)
  | neg (operand : Formula)
  | binary (connective : Connective) (left right : Formula)
deriving DecidableEq

namespace Connective

def symbol : Connective → String
  | .and => "&"
  | .or => "|"
  | .xor => "+"

/-- The degree of the joined formula.  Exclusive disjunction holds as far as
one side holds and the other does not. -/
def truth (connective : Connective) (left right : Degree) : Degree :=
  match connective with
  | .and => min left right
  | .or => max left right
  | .xor => max (min left.complement right) (min left right.complement)

end Connective

namespace Operator

def all : List Operator :=
  [.not, .binary .and, .binary .or, .binary .xor]

def name : Operator → String
  | .not => "NOT"
  | .binary .and => "AND"
  | .binary .or => "OR"
  | .binary .xor => "XOR"

def symbol : Operator → String
  | .not => "~"
  | .binary connective => connective.symbol

def arity : Operator → Nat
  | .not => 1
  | .binary _ => 2

end Operator

namespace Formula

@[match_pattern] abbrev conj (left right : Formula) : Formula :=
  .binary .and left right

@[match_pattern] abbrev disj (left right : Formula) : Formula :=
  .binary .or left right

@[match_pattern] abbrev xor (left right : Formula) : Formula :=
  .binary .xor left right

/-- The formula of a degree: the atom whose name is the degree's text. -/
def constant (degree : Degree) : Formula :=
  .atom ⟨degree.text⟩

/-- The formula that always holds. -/
def top : Formula :=
  constant Degree.one

/-- The formula that never holds. -/
def bottom : Formula :=
  constant Degree.zero

/-- Joins formulas, nested to the right; `empty` stands for none at all. -/
def joinAll (connective : Connective) (empty : Formula) :
    List Formula → Formula
  | [] => empty
  | [formula] => formula
  | formula :: rest => .binary connective formula (joinAll connective empty rest)

/-- The conjunction of a list. -/
def conjAll : List Formula → Formula :=
  joinAll .and top

/-- The disjunction of a list. -/
def disjAll : List Formula → Formula :=
  joinAll .or bottom

def isAtomic : Formula → Bool
  | .atom _ => true
  | _ => false

/-- The degree of a constant formula. -/
def constant? : Formula → Option Degree
  | .atom a => a.constant?
  | _ => none

def isConstant (formula : Formula) : Bool :=
  formula.constant?.isSome

/-- An atom or the negation of one. -/
def isLiteral : Formula → Bool
  | .atom _ => true
  | .neg (.atom _) => true
  | _ => false

/-- A literal or a tree of conjunctions over literals. -/
def isConjunction : Formula → Bool
  | .conj left right => left.isConjunction && right.isConjunction
  | formula => formula.isLiteral

def operator? : Formula → Option Operator
  | .atom _ => none
  | .neg _ => some .not
  | .binary connective _ _ => some (.binary connective)

/-- The immediate subformulas. -/
def children : Formula → List Formula
  | .atom _ => []
  | .neg operand => [operand]
  | .binary _ left right => [left, right]

/-- The atoms that are not constants, from left to right. -/
def mentions : Formula → List Atom
  | .atom a => if a.isConstant then [] else [a]
  | .neg operand => operand.mentions
  | .binary _ left right => left.mentions ++ right.mentions

/-- The vocabulary of a formula: its atoms without the constants. -/
def atoms (formula : Formula) : List Atom :=
  Atom.vocabulary formula.mentions

/-- The opposite formula: an outermost negation is taken off, any other formula
gets one. -/
def negated : Formula → Formula
  | .neg operand => operand
  | formula => .neg formula

/-- The written form.  Names are written as they are. -/
def text : Formula → String
  | .atom a => a.name
  | .neg operand => "~" ++ operand.text
  | .binary connective left right =>
      "(" ++ left.text ++ " " ++ connective.symbol ++ " " ++ right.text ++ ")"

/-- Nests a repeated connective to the right, following the right operand of
each turn. -/
def rightAssociate : Formula → Formula
  | .binary connective (.binary inner first second) right =>
      if inner = connective then
        .binary connective first
          (rightAssociate (.binary connective second right))
      else
        .binary connective (.binary inner first second) right
  | formula => formula
termination_by
  formula => match formula with
    | .binary _ left _ => sizeOf left
    | _ => 0

end Formula

end Possibilistic
