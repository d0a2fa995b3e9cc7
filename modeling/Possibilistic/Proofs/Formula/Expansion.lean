import Possibilistic.Formula.NegationNormal
import Possibilistic.Interpretation
import Possibilistic.Proofs.Degree.Involution

/-!
# Expansion keeps the truth

One step of normalisation mentions nothing new.  Where two complements give
every atom and constant of a formula back, they give its truth back, and the
step keeps this truth, up to the sign of zero.
-/

namespace Possibilistic

namespace Formula

/-- The atoms from left to right, with the constants. -/
def symbols : Formula → List Atom
  | .atom a => [a]
  | .neg operand => operand.symbols
  | .binary _ left right => left.symbols ++ right.symbols

/-- Literals joined by conjunctions and disjunctions. -/
def isNegationNormal : Formula → Bool
  | .conj left right => left.isNegationNormal && right.isNegationNormal
  | .disj left right => left.isNegationNormal && right.isNegationNormal
  | formula => formula.isLiteral

theorem mentions_eq_filter_symbols (formula : Formula) :
    formula.mentions = formula.symbols.filter (!·.isConstant) := by
  induction formula with
  | atom symbol =>
      simp only [mentions, symbols, List.filter_cons, List.filter_nil]
      cases symbol.isConstant <;> rfl
  | neg operand ih => exact ih
  | binary connective left right leftIh rightIh =>
      rw [mentions, symbols, List.filter_append, leftIh, rightIh]

theorem symbols_deMorgan_subset (formula : Formula) :
    formula.deMorgan.symbols ⊆ formula.symbols := by
  unfold deMorgan
  split
  · exact List.Subset.refl _
  · exact List.Subset.refl _
  · exact List.Subset.refl _
  · -- An exclusive disjunction has two cases, and both mention both sides.
    simp only [symbols]
    exact List.append_subset.mpr ⟨List.Subset.refl _, List.Subset.refl _⟩
  · exact List.Subset.refl _

theorem symbols_splitXor_subset (formula : Formula) :
    formula.splitXor.symbols ⊆ formula.symbols := by
  unfold splitXor
  split
  · simp only [symbols]
    exact List.append_subset.mpr ⟨List.Subset.refl _, List.Subset.refl _⟩
  · exact List.Subset.refl _

/-- The step mentions nothing new. -/
theorem symbols_expand_subset (formula : Formula) :
    formula.expand.symbols ⊆ formula.symbols :=
  List.Subset.trans (symbols_splitXor_subset _) (symbols_deMorgan_subset _)

theorem mentions_expand_subset (formula : Formula) :
    formula.expand.mentions ⊆ formula.mentions := by
  rw [mentions_eq_filter_symbols, mentions_eq_filter_symbols]
  exact List.filter_subset _ (symbols_expand_subset formula)

/-- No exclusive disjunction stands at the root of an expanded formula. -/
theorem expand_ne_xor (formula left right : Formula) :
    formula.expand ≠ .xor left right := by
  unfold expand splitXor
  split
  · nofun
  · rename_i notXor
    exact notXor left right

/-- Two complements give the truth of every atom and constant back. -/
def IsInvolutiveIn (world : Interpretation) (formula : Formula) : Prop :=
  ∀ symbol ∈ formula.symbols, (world.truth symbol).isInvolutive = true

namespace IsInvolutiveIn

variable {world : Interpretation}

theorem of_symbols_subset {formula other : Formula}
    (involutive : formula.IsInvolutiveIn world)
    (contained : other.symbols ⊆ formula.symbols) :
    other.IsInvolutiveIn world :=
  fun symbol member => involutive symbol (contained member)

theorem of_binary {connective : Connective} {left right : Formula}
    (involutive : (Formula.binary connective left right).IsInvolutiveIn
      world) : left.IsInvolutiveIn world ∧ right.IsInvolutiveIn world :=
  List.forall_mem_append.mp involutive

theorem truth_isInvolutive {formula : Formula}
    (involutive : formula.IsInvolutiveIn world) :
    (formula.truth world).isInvolutive = true := by
  induction formula with
  | atom symbol => exact involutive symbol List.mem_cons_self
  | neg operand ih => exact Degree.isInvolutive_complement _
  | binary connective left right leftIh rightIh =>
      obtain ⟨leftInvolutive, rightInvolutive⟩ := of_binary involutive
      exact Degree.isInvolutive_connective connective
        (leftIh leftInvolutive) (rightIh rightInvolutive)

end IsInvolutiveIn

theorem units_truth_deMorgan {world : Interpretation} {formula : Formula}
    (involutive : formula.IsInvolutiveIn world) :
    (formula.deMorgan.truth world).units = (formula.truth world).units := by
  unfold deMorgan
  split
  · rename_i operand
    have operandInvolutive : operand.IsInvolutiveIn world := involutive
    exact (Degree.isInvolutive_iff.mp
      operandInvolutive.truth_isInvolutive).symm
  · simp only [truth, Connective.truth, Degree.units_complement_min,
      Degree.units_max]
  · simp only [truth, Connective.truth, Degree.units_complement_max,
      Degree.units_min]
  · rename_i left right
    have operandInvolutive : (xor left right).IsInvolutiveIn world :=
      involutive
    obtain ⟨leftInvolutive, rightInvolutive⟩ := operandInvolutive.of_binary
    have agreeing := Degree.units_complement_xor
      leftInvolutive.truth_isInvolutive rightInvolutive.truth_isInvolutive
    simp only [truth, agreeing]
    simp only [Connective.truth, Degree.units_max, Degree.units_min]
  · rfl

theorem units_truth_splitXor (world : Interpretation) (formula : Formula) :
    (formula.splitXor.truth world).units = (formula.truth world).units := by
  unfold splitXor
  split
  · simp only [truth, Connective.truth, Degree.units_max, Degree.units_min]
    omega
  · rfl

/-- The step keeps the truth. -/
theorem units_truth_expand {world : Interpretation} {formula : Formula}
    (involutive : formula.IsInvolutiveIn world) :
    (formula.expand.truth world).units = (formula.truth world).units := by
  rw [expand, units_truth_splitXor, units_truth_deMorgan involutive]

end Formula

end Possibilistic
