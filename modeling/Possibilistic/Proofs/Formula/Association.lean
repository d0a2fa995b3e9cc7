import Possibilistic.Formula.Basic

/-!
# What reassociation reaches

The right spine of a formula lists the left sides that are met while its right
sides are followed through one connective, and ends with the formula where
another operator begins.  Reassociation puts the spine of the left side before
that of the right side and looks into neither side's entries.  So the operands
and their order are kept, and the connective is nested to the right all along
the spine exactly when it was so on both sides.
-/

namespace Possibilistic

namespace Formula

/-- The root is the connective. -/
def isJoinedBy (connective : Connective) : Formula → Bool
  | .binary inner _ _ => inner = connective
  | _ => false

/-- The maximal subformulas with another root, from left to right through all
nested uses of the connective. -/
def operands (connective : Connective) : Formula → List Formula
  | .binary inner left right =>
      if inner = connective then
        left.operands connective ++ right.operands connective
      else [.binary inner left right]
  | formula => [formula]

/-- The left sides along the right sides, and the last right side. -/
def rightSpine (connective : Connective) : Formula → List Formula
  | .binary inner left right =>
      if inner = connective then left :: right.rightSpine connective
      else [.binary inner left right]
  | formula => [formula]

/-- Along the right sides no left side is joined by the connective again. -/
def isRightNested (connective : Connective) : Formula → Bool
  | .binary inner left right =>
      if inner = connective then
        !left.isJoinedBy connective && right.isRightNested connective
      else true
  | _ => true

section

variable (connective : Connective)

theorem rightSpine_of_not_joined {formula : Formula}
    (other : formula.isJoinedBy connective = false) :
    formula.rightSpine connective = [formula] := by
  cases formula with
  | atom symbol => rfl
  | neg operand => rfl
  | binary inner left right =>
      rw [rightSpine, if_neg (of_decide_eq_false other)]

theorem rightSpine_binary (left right : Formula) :
    (binary connective left right).rightSpine connective =
      left :: right.rightSpine connective := by
  rw [rightSpine, if_pos rfl]

/-- The operands are found along the spine. -/
theorem operands_eq_flatMap_rightSpine (formula : Formula) :
    formula.operands connective =
      (formula.rightSpine connective).flatMap (operands connective) := by
  induction formula with
  | atom symbol => rfl
  | neg operand => rfl
  | binary inner left right _ rightIh =>
      by_cases same : inner = connective
      · rw [operands, rightSpine, if_pos same, if_pos same, List.flatMap_cons,
          rightIh]
      · have other : (binary inner left right).isJoinedBy connective = false :=
          decide_eq_false same
        rw [rightSpine_of_not_joined connective other, List.flatMap_singleton]

/-- The end of the spine is not joined by the connective, so that it need not be
told apart from the left sides. -/
theorem isRightNested_iff {formula : Formula} :
    formula.isRightNested connective = true ↔
      ∀ entry ∈ formula.rightSpine connective,
        entry.isJoinedBy connective = false := by
  induction formula with
  | atom symbol => simp [isRightNested, rightSpine, isJoinedBy]
  | neg operand => simp [isRightNested, rightSpine, isJoinedBy]
  | binary inner left right _ rightIh =>
      by_cases same : inner = connective
      · simp only [isRightNested, rightSpine, if_pos same, Bool.and_eq_true,
          Bool.not_eq_true', List.forall_mem_cons, rightIh]
      · simp [isRightNested, rightSpine, isJoinedBy, same]

/-- One turn takes a left side off the left spine and goes on with the rest. -/
theorem rightAssociate_binary_binary (first second right : Formula) :
    rightAssociate
        (.binary connective (.binary connective first second) right) =
      .binary connective first
        (rightAssociate (.binary connective second right)) := by
  rw [rightAssociate, if_pos rfl]

theorem rightAssociate_of_not_joined {left right : Formula}
    (other : left.isJoinedBy connective = false) :
    rightAssociate (.binary connective left right) =
      .binary connective left right := by
  cases left with
  | atom symbol => rw [rightAssociate]; simp
  | neg operand => rw [rightAssociate]; simp
  | binary inner first second =>
      rw [rightAssociate, if_neg (of_decide_eq_false other)]

/-- Reassociation puts one spine before the other. -/
theorem rightSpine_rightAssociate (left right : Formula) :
    (rightAssociate (.binary connective left right)).rightSpine connective =
      left.rightSpine connective ++ right.rightSpine connective := by
  induction left with
  | atom symbol =>
      rw [rightAssociate_of_not_joined connective rfl, rightSpine_binary]
      rfl
  | neg operand =>
      rw [rightAssociate_of_not_joined connective rfl, rightSpine_binary]
      rfl
  | binary inner first second _ secondIh =>
      by_cases same : inner = connective
      · subst same
        rw [rightAssociate_binary_binary, rightSpine_binary, secondIh,
          rightSpine_binary, List.cons_append]
      · have other : (binary inner first second).isJoinedBy connective =
            false :=
          decide_eq_false same
        rw [rightAssociate_of_not_joined connective other, rightSpine_binary,
          rightSpine_of_not_joined connective other, List.singleton_append]

theorem isJoinedBy_rightAssociate (left right : Formula) :
    (rightAssociate (.binary connective left right)).isJoinedBy connective =
      true := by
  cases joined : left.isJoinedBy connective with
  | false =>
      rw [rightAssociate_of_not_joined connective joined]
      exact decide_eq_true rfl
  | true =>
      cases left with
      | atom symbol => cases joined
      | neg operand => cases joined
      | binary inner first second =>
          obtain rfl : inner = connective := of_decide_eq_true joined
          rw [rightAssociate_binary_binary]
          exact decide_eq_true rfl

theorem operands_rightAssociate (left right : Formula) :
    (rightAssociate (.binary connective left right)).operands connective =
      (binary connective left right).operands connective := by
  rw [operands_eq_flatMap_rightSpine, rightSpine_rightAssociate,
    List.flatMap_append, ← operands_eq_flatMap_rightSpine,
    ← operands_eq_flatMap_rightSpine, operands, if_pos rfl]

theorem isRightNested_rightAssociate_iff {left right : Formula} :
    (rightAssociate (.binary connective left right)).isRightNested
        connective = true ↔
      left.isRightNested connective = true ∧
        right.isRightNested connective = true := by
  rw [isRightNested_iff, isRightNested_iff, isRightNested_iff,
    rightSpine_rightAssociate, List.forall_mem_append]

end

/-- Reassociation keeps the connective at the root and the operands in their
order, and lists the left sides along both sides one after the other.  The
result is nested to the right exactly when both sides were. -/
theorem rightAssociate_joins_spines (connective : Connective)
    (left right : Formula) :
    let result := rightAssociate (.binary connective left right)
    result.isJoinedBy connective = true ∧
      result.operands connective =
        (binary connective left right).operands connective ∧
      result.rightSpine connective =
        left.rightSpine connective ++ right.rightSpine connective ∧
      (result.isRightNested connective = true ↔
        left.isRightNested connective = true ∧
          right.isRightNested connective = true) :=
  ⟨isJoinedBy_rightAssociate connective left right,
    operands_rightAssociate connective left right,
    rightSpine_rightAssociate connective left right,
    isRightNested_rightAssociate_iff connective⟩

/-- Of three uses nested to the left one is still to the left of another, and
where the left side is an atom nothing is moved at all. -/
theorem rightAssociate_leaves_left_nesting :
    let a : Formula := .atom ⟨"a"⟩
    let b : Formula := .atom ⟨"b"⟩
    let c : Formula := .atom ⟨"c"⟩
    let d : Formula := .atom ⟨"d"⟩
    let leftward : Formula := ((a.conj b).conj c).conj d
    let inward : Formula := a.conj ((b.conj c).conj d)
    leftward.rightAssociate = (a.conj b).conj (c.conj d) ∧
      leftward.rightAssociate.isRightNested .and = false ∧
      inward.rightAssociate = inward ∧
      inward.rightAssociate.isRightNested .and = false := by
  intro a b c d leftward inward
  have turned : leftward.rightAssociate = (a.conj b).conj (c.conj d) := by
    rw [rightAssociate_binary_binary, rightAssociate_of_not_joined .and rfl]
  have unmoved : inward.rightAssociate = inward :=
    rightAssociate_of_not_joined .and rfl
  rw [turned, unmoved]
  exact ⟨rfl, rfl, rfl, rfl⟩

end Formula

end Possibilistic
