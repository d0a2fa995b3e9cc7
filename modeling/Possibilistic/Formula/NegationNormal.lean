import Possibilistic.Formula.Basic

/-!
# Negation normal form

One step moves an outermost negation down a level, or takes two off, and
expands an exclusive disjunction at the root.  The normal form repeats the
step on every operand.  A formula that loses its two outer negations is not
looked at again, so four stacked negations leave two.  Main statement: the
operands of an expanded formula have a smaller rank, which ends the recursion.
-/

namespace Possibilistic

namespace Formula

/-- Moves one outermost negation down a level. -/
def deMorgan : Formula → Formula
  | .neg (.neg operand) => operand
  | .neg (.conj left right) => .disj (.neg left) (.neg right)
  | .neg (.disj left right) => .conj (.neg left) (.neg right)
  | .neg (.xor left right) =>
      .disj (.conj left right) (.conj (.neg left) (.neg right))
  | formula => formula

/-- An exclusive disjunction as the disjunction of its two cases. -/
def splitXor : Formula → Formula
  | .xor left right =>
      .disj (.conj left (.neg right)) (.conj (.neg left) right)
  | formula => formula

/-- One step of normalisation at the root. -/
def expand (formula : Formula) : Formula :=
  formula.deMorgan.splitXor

/-- Height, with room for the levels that an expanded exclusive disjunction
gains. -/
def rank : Formula → Nat
  | .atom _ => 0
  | .neg operand => operand.rank + 1
  | .binary .xor left right => max left.rank right.rank + 3
  | .binary _ left right => max left.rank right.rank + 1

theorem rank_splitXor (formula : Formula) :
    ∀ operand ∈ formula.splitXor.children, operand.rank < formula.rank := by
  intro operand member
  unfold splitXor at member
  split at member
  · simp only [children, List.mem_cons, List.not_mem_nil, or_false] at member
    rcases member with rfl | rfl <;> simp only [rank] <;> omega
  · cases formula with
    | atom a => simp [children] at member
    | neg inner =>
        simp only [children, List.mem_singleton] at member
        subst member
        simp [rank]
    | binary connective left right =>
        simp only [children, List.mem_cons, List.not_mem_nil, or_false]
          at member
        rcases member with rfl | rfl <;> cases connective <;>
          simp only [rank] <;> omega

theorem rank_deMorgan (formula : Formula) :
    ∀ operand ∈ formula.deMorgan.splitXor.children,
      operand.rank < formula.rank := by
  intro operand member
  unfold deMorgan at member
  split at member
  · exact Nat.lt_trans (rank_splitXor _ operand member) (by
      simp only [rank]; omega)
  · simp only [splitXor, children, List.mem_cons, List.not_mem_nil, or_false]
      at member
    rcases member with rfl | rfl <;> simp only [rank] <;> omega
  · simp only [splitXor, children, List.mem_cons, List.not_mem_nil, or_false]
      at member
    rcases member with rfl | rfl <;> simp only [rank] <;> omega
  · simp only [splitXor, children, List.mem_cons, List.not_mem_nil, or_false]
      at member
    rcases member with rfl | rfl <;> simp only [rank] <;> omega
  · exact rank_splitXor _ operand member

/-- The operands of an expanded formula have a smaller rank. -/
theorem rank_lt_of_mem_expand {formula operand : Formula}
    (member : operand ∈ formula.expand.children) :
    operand.rank < formula.rank :=
  rank_deMorgan formula operand member

/-- Negation normal form: conjunctions and disjunctions over literals, but for
formulas with stacked negations. -/
def nnf (formula : Formula) : Formula :=
  match _shape : formula.expand with
  | .atom a => .atom a
  | .neg (.atom a) => .neg (.atom a)
  | .neg operand => .neg operand.nnf
  | .binary connective left right => .binary connective left.nnf right.nnf
termination_by formula.rank
decreasing_by
  all_goals
    apply rank_lt_of_mem_expand
    rw [_shape]
    simp [children]

end Formula

end Possibilistic
