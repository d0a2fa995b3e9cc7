import Possibilistic.Formula.Basic

/-!
# Unique readability

Names that avoid the marks of the written language leave only one way to read a
formula.  The text of a formula is followed by a space, by a closing parenthesis
or by nothing, so it ends where the structure says and no operand can be split
in another way.  Empty names and stacked negations are covered.
-/

namespace Possibilistic

/-- Each connective has a symbol of its own, a single character. -/
theorem Connective.symbol_append_eq_iff {left right : Connective}
    {leftRest rightRest : List Char} :
    left.symbol.toList ++ leftRest = right.symbol.toList ++ rightRest ↔
      left = right ∧ leftRest = rightRest := by
  cases left <;> cases right <;> simp [symbol]

namespace Formula

/-- The characters that the language writes between names. -/
def isMark (c : Char) : Bool :=
  ['~', '&', '|', '+', '(', ')', ' '].contains c

/-- No atom, constants included, has a mark in its name. -/
def isPlainlyNamed : Formula → Bool
  | .atom a => a.name.toList.all fun c => !isMark c
  | .neg operand => operand.isPlainlyNamed
  | .binary _ left right => left.isPlainlyNamed && right.isPlainlyNamed

/-- What may stand after a formula: nothing, a space, or the parenthesis that
closes the formula around it. -/
def Closes (rest : List Char) : Prop :=
  ∀ c ∈ rest.head?, c = ' ' ∨ c = ')'

theorem closes_nil : Closes [] := nofun

theorem closes_cons {c : Char} (closing : c = ' ' ∨ c = ')')
    (rest : List Char) : Closes (c :: rest) := by
  intro first isFirst
  cases isFirst
  exact closing

theorem toList_text_neg (operand : Formula) :
    operand.neg.text.toList = '~' :: operand.text.toList := by
  rw [text, String.toList_append]
  rfl

theorem toList_text_binary (connective : Connective) (left right : Formula) :
    (binary connective left right).text.toList =
      '(' :: (left.text.toList ++ ' ' :: (connective.symbol.toList ++
        ' ' :: (right.text.toList ++ [')']))) := by
  simp [text, String.toList_append]

theorem takeWhile_name_append {name rest : List Char}
    (plain : name.all (fun c => !isMark c) = true) (closes : Closes rest) :
    (name ++ rest).takeWhile (fun c => !isMark c) = name := by
  have stops : rest.takeWhile (fun c => !isMark c) = [] := by
    cases rest with
    | nil => rfl
    | cons c later =>
        rcases closes c rfl with rfl | rfl <;> rfl
  rw [List.takeWhile_append_of_pos (List.all_eq_true.mp plain), stops,
    List.append_nil]

/-- A name ends where its first mark stands. -/
theorem name_append_inj {left right leftRest rightRest : List Char}
    (leftPlain : left.all (fun c => !isMark c) = true)
    (rightPlain : right.all (fun c => !isMark c) = true)
    (leftCloses : Closes leftRest) (rightCloses : Closes rightRest)
    (same : left ++ leftRest = right ++ rightRest) :
    left = right ∧ leftRest = rightRest := by
  have sameName : left = right := by
    rw [← takeWhile_name_append leftPlain leftCloses, same,
      takeWhile_name_append rightPlain rightCloses]
  subst sameName
  exact ⟨rfl, List.append_cancel_left same⟩

/-- A name, also an empty one, does not begin like a compound formula. -/
theorem name_append_ne_cons {name rest tail : List Char} {c : Char}
    (plain : name.all (fun c => !isMark c) = true) (closes : Closes rest)
    (opens : c = '~' ∨ c = '(') : name ++ rest ≠ c :: tail := by
  intro same
  cases name with
  | nil =>
      rw [List.nil_append] at same
      have closing := closes c (by rw [same]; rfl)
      rcases opens with rfl | rfl <;> simp at closing
  | cons first later =>
      cases (List.cons.inj same).1
      rcases opens with rfl | rfl <;> simp [isMark] at plain

/-- A text that begins with a formula and goes on as formulas do determines the
formula and what follows it. -/
theorem eq_of_text_append {left right : Formula}
    {leftRest rightRest : List Char}
    (leftNamed : left.isPlainlyNamed = true)
    (rightNamed : right.isPlainlyNamed = true)
    (leftCloses : Closes leftRest) (rightCloses : Closes rightRest)
    (same : left.text.toList ++ leftRest =
      right.text.toList ++ rightRest) :
    left = right ∧ leftRest = rightRest := by
  induction left generalizing right leftRest rightRest with
  | atom symbol =>
      cases right with
      | atom other =>
          obtain ⟨sameName, sameRest⟩ :=
            name_append_inj leftNamed rightNamed leftCloses rightCloses same
          have sameAtom : symbol = other :=
            congrArg Atom.mk (String.toList_inj.mp sameName)
          exact ⟨congrArg atom sameAtom, sameRest⟩
      | neg operand =>
          rw [toList_text_neg] at same
          exact absurd same
            (name_append_ne_cons leftNamed leftCloses (.inl rfl))
      | binary connective first second =>
          rw [toList_text_binary] at same
          exact absurd same
            (name_append_ne_cons leftNamed leftCloses (.inr rfl))
  | neg operand ih =>
      rw [toList_text_neg operand] at same
      cases right with
      | atom other =>
          exact absurd same.symm
            (name_append_ne_cons rightNamed rightCloses (.inl rfl))
      | neg otherOperand =>
          rw [toList_text_neg otherOperand] at same
          have otherNamed : otherOperand.isPlainlyNamed = true := rightNamed
          obtain ⟨sameOperand, sameRest⟩ :=
            ih leftNamed otherNamed leftCloses rightCloses
              (List.cons.inj same).2
          exact ⟨congrArg neg sameOperand, sameRest⟩
      | binary connective first second =>
          rw [toList_text_binary] at same
          simp at same
  | binary connective first second firstIh secondIh =>
      rw [toList_text_binary] at same
      cases right with
      | atom other =>
          exact absurd same.symm
            (name_append_ne_cons rightNamed rightCloses (.inr rfl))
      | neg operand =>
          rw [toList_text_neg] at same
          simp at same
      | binary otherConnective otherFirst otherSecond =>
          simp only [isPlainlyNamed, Bool.and_eq_true] at leftNamed rightNamed
          rw [toList_text_binary] at same
          simp only [List.cons_append, List.append_assoc] at same
          obtain ⟨sameFirst, afterFirst⟩ :=
            firstIh leftNamed.1 rightNamed.1 (closes_cons (.inl rfl) _)
              (closes_cons (.inl rfl) _) (List.cons.inj same).2
          obtain ⟨sameConnective, afterSymbol⟩ :=
            Connective.symbol_append_eq_iff.mp (List.cons.inj afterFirst).2
          obtain ⟨sameSecond, afterSecond⟩ :=
            secondIh leftNamed.2 rightNamed.2 (closes_cons (.inr rfl) _)
              (closes_cons (.inr rfl) _) (List.cons.inj afterSymbol).2
          rw [sameFirst, sameConnective, sameSecond]
          exact ⟨rfl, (List.cons.inj afterSecond).2⟩

/-- Formulas whose names are free of marks are the same formula when they are
written the same way. -/
theorem text_identifies_plainly_named {left right : Formula}
    (leftNamed : left.isPlainlyNamed = true)
    (rightNamed : right.isPlainlyNamed = true)
    (same : left.text = right.text) : left = right := by
  have written : left.text.toList ++ [] = right.text.toList ++ [] := by
    rw [same]
  exact (eq_of_text_append leftNamed rightNamed closes_nil closes_nil
    written).1

/-- The text of a formula with stacked negations and an atom without a name is
written by no other formula, so taking a negation off gives the formula back. -/
theorem text_identifies_plainly_named_nameless :
    let nameless : Formula := .atom ⟨""⟩
    let joined : Formula := (nameless.neg.neg.conj (.atom ⟨"1.0"⟩)).xor nameless
    joined.neg.isPlainlyNamed = true ∧
      joined.neg.neg.negated.isPlainlyNamed = true ∧
      joined.neg.text = joined.neg.neg.negated.text ∧
      joined.neg.text = "~((~~ & 1.0) + )" ∧
      joined.neg = joined.neg.neg.negated := by
  intro nameless joined
  have named : joined.neg.isPlainlyNamed = true := by decide
  have opposite : joined.neg.neg.negated.isPlainlyNamed = true := by decide
  have same : joined.neg.text = joined.neg.neg.negated.text := by decide
  exact ⟨named, opposite, same, by decide,
    text_identifies_plainly_named named opposite same⟩

/-- A mark in a name can be taken for one of the language. -/
example : (atom ⟨"~p"⟩).text = (neg (.atom ⟨"p"⟩)).text ∧
    atom ⟨"~p"⟩ ≠ neg (.atom ⟨"p"⟩) := by
  decide

end Formula

end Possibilistic
