import Possibilistic.Proofs.Formula.Expansion

/-!
# Negation normal form

Where two complements give every atom and constant of a formula back, its
negation normal form has the truth of the formula, also where stacked negations
are left in place.  None are left when negations stand on each other only
directly above an atom: then no negation that is moved inwards meets two others,
so the formula and its negation both normalise.
-/

namespace Possibilistic

namespace Formula

/-- One turn of normalisation. -/
theorem nnf_eq (formula : Formula) :
    formula.nnf =
      match formula.expand with
      | .atom symbol => .atom symbol
      | .neg (.atom symbol) => .neg (.atom symbol)
      | .neg operand => .neg operand.nnf
      | .binary connective left right =>
          .binary connective left.nnf right.nnf := by
  rw [nnf]
  split
  · rename_i shape
    rw [shape]
  · rename_i shape
    rw [shape]
  · rename_i notAtom shape
    rw [shape]
    split
    · simp_all
    · simp_all
    · simp_all
    · simp_all
  · rename_i shape
    rw [shape]

section Truth

variable {world : Interpretation} {formula : Formula}

/-- Normalisation keeps the truth, along the expansions that it repeats. -/
theorem units_truth_nnf (involutive : formula.IsInvolutiveIn world) :
    (formula.nnf.truth world).units = (formula.truth world).units := by
  have expanded : ∀ {other}, IsInvolutiveIn world other →
      other.expand.IsInvolutiveIn world :=
    fun {other} holds => holds.of_symbols_subset (symbols_expand_subset other)
  fun_induction nnf formula with
  | case1 formula symbol shape =>
      rw [← units_truth_expand involutive, shape]
  | case2 formula symbol shape =>
      rw [← units_truth_expand involutive, shape]
  | case3 formula operand notAtom shape ih =>
      -- Stacked negations stay, and only what is below them changes.
      have operandInvolutive := expanded involutive
      rw [shape] at operandInvolutive
      rw [← units_truth_expand involutive, shape]
      exact congrArg Degree.units
        (Degree.complement_congr (ih operandInvolutive))
  | case4 formula connective left right shape leftIh rightIh =>
      have operandsInvolutive := expanded involutive
      rw [shape] at operandsInvolutive
      obtain ⟨leftInvolutive, rightInvolutive⟩ := operandsInvolutive.of_binary
      rw [← units_truth_expand involutive, shape]
      exact Degree.units_connective_congr connective (leftIh leftInvolutive)
        (rightIh rightInvolutive)

/-- Where two complements give every atom and constant back, neither the
normal form nor a single step towards it changes the truth, in crisp and in
fuzzy interpretations and whatever negations are stacked. -/
theorem nnf_and_deMorgan_keep_truth
    (involutive : ∀ symbol ∈ formula.symbols,
      (world.truth symbol).isInvolutive = true) :
    (formula.nnf.truth world == formula.truth world) = true ∧
      (formula.deMorgan.truth world == formula.truth world) = true :=
  ⟨Degree.beq_iff.mpr (units_truth_nnf involutive),
    Degree.beq_iff.mpr (units_truth_deMorgan involutive)⟩

/-- Rain under four negations, and wind of which nothing is known: the negated
exclusive disjunction is expanded, two of the negations are left, and the truth
is the same. -/
theorem nnf_and_deMorgan_keep_truth_wind :
    let rain : Formula := .atom ⟨"rain"⟩
    let wind : Formula := .atom ⟨"wind"⟩
    let formula := neg (xor (neg (neg (neg (neg rain)))) wind)
    let world := Interpretation.ofList
      [(⟨"rain"⟩, Degree.half.mean Degree.one)]
    (∀ symbol ∈ formula.symbols,
        (world.truth symbol).isInvolutive = true) ∧
      formula.nnf.isNegationNormal = false ∧
      (formula.nnf.truth world == formula.truth world) = true ∧
      (formula.deMorgan.truth world == formula.truth world) = true := by
  intro rain wind formula world
  have involutive : ∀ symbol ∈ formula.symbols,
      (world.truth symbol).isInvolutive = true := by decide +kernel
  exact ⟨involutive, by decide +kernel,
    nnf_and_deMorgan_keep_truth involutive⟩

/-- One tenth is not given back by two complements, which the normal form takes
away. -/
example :
    let formula := neg (neg (.atom ⟨"0.1"⟩))
    formula.nnf.truth Interpretation.empty ≠
      formula.truth Interpretation.empty := by
  decide +kernel

end Truth

section Shape

/-- Every turn of normalisation ends at a literal or goes on below a connective,
so no stacked negations are met. -/
inductive Normalizes : Formula → Prop where
  | literal {formula : Formula} :
      formula.expand.isLiteral = true → Normalizes formula
  | binary {formula left right : Formula} {connective : Connective} :
      formula.expand = .binary connective left right →
      Normalizes left → Normalizes right → Normalizes formula

/-- Negations stand on each other only in pairs above an atom. -/
def stacksOnAtomsOnly : Formula → Bool
  | .atom _ => true
  | .neg (.neg operand) => operand.isAtomic
  | .neg operand => operand.stacksOnAtomsOnly
  | .binary _ left right =>
      left.stacksOnAtomsOnly && right.stacksOnAtomsOnly

variable {formula operand left right : Formula}

theorem literal_cases (literal : formula.isLiteral = true) :
    (∃ symbol, formula = .atom symbol) ∨
      ∃ symbol, formula = .neg (.atom symbol) := by
  cases formula with
  | atom symbol => exact .inl ⟨symbol, rfl⟩
  | neg operand =>
      cases operand with
      | atom symbol => exact .inr ⟨symbol, rfl⟩
      | neg _ => cases literal
      | binary _ _ _ => cases literal
  | binary _ _ _ => cases literal

/-- Two negations that may stand on each other stand on an atom. -/
theorem exists_atom_of_stacksOnAtomsOnly
    (onAtomsOnly : (neg (neg operand)).stacksOnAtomsOnly = true) :
    ∃ symbol, operand = .atom symbol := by
  cases operand with
  | atom symbol => exact ⟨symbol, rfl⟩
  | neg _ => cases onAtomsOnly
  | binary _ _ _ => cases onAtomsOnly

theorem Normalizes.conj (leftNormalizes : left.Normalizes)
    (rightNormalizes : right.Normalizes) :
    (Formula.conj left right).Normalizes :=
  .binary rfl leftNormalizes rightNormalizes

theorem Normalizes.isNegationNormal_nnf (normalizes : formula.Normalizes) :
    formula.nnf.isNegationNormal = true := by
  induction normalizes with
  | @literal formula literal =>
      rw [nnf_eq]
      obtain ⟨symbol, shape⟩ | ⟨symbol, shape⟩ := literal_cases literal
      · rw [shape]
        rfl
      · rw [shape]
        rfl
  | @binary formula left right connective shape _ _ leftNormal rightNormal =>
      rw [nnf_eq, shape]
      cases connective with
      | and => simp only [isNegationNormal, leftNormal, rightNormal, Bool.and_self]
      | or => simp only [isNegationNormal, leftNormal, rightNormal, Bool.and_self]
      | xor => exact absurd shape (expand_ne_xor formula left right)

theorem stacksOnAtomsOnly_of_neg
    (onAtomsOnly : (neg operand).stacksOnAtomsOnly = true) :
    operand.stacksOnAtomsOnly = true := by
  cases operand with
  | atom symbol => rfl
  | neg inner =>
      obtain ⟨symbol, rfl⟩ := exists_atom_of_stacksOnAtomsOnly onAtomsOnly
      rfl
  | binary connective left right => exact onAtomsOnly

/-- A formula whose negations stack on atoms only normalises, and so does its
negation, which a connective above may ask for. -/
theorem normalizes_of_stacksOnAtomsOnly
    (onAtomsOnly : formula.stacksOnAtomsOnly = true) :
    formula.Normalizes ∧ (neg formula).Normalizes := by
  induction formula with
  | atom symbol => exact ⟨.literal rfl, .literal rfl⟩
  | neg operand ih =>
      obtain ⟨operandNormalizes, negationNormalizes⟩ :=
        ih (stacksOnAtomsOnly_of_neg onAtomsOnly)
      refine ⟨negationNormalizes, ?_⟩
      -- The outer two negations go, and a third one only stands on an atom.
      cases operand with
      | atom symbol => exact .literal rfl
      | neg inner =>
          obtain ⟨symbol, rfl⟩ := exists_atom_of_stacksOnAtomsOnly onAtomsOnly
          exact .literal rfl
      | binary connective left right =>
          cases operandNormalizes with
          | literal literal => exact .literal literal
          | binary shape leftNormalizes rightNormalizes =>
              exact .binary shape leftNormalizes rightNormalizes
  | binary connective left right leftIh rightIh =>
      simp only [stacksOnAtomsOnly, Bool.and_eq_true] at onAtomsOnly
      obtain ⟨leftNormalizes, notLeft⟩ := leftIh onAtomsOnly.1
      obtain ⟨rightNormalizes, notRight⟩ := rightIh onAtomsOnly.2
      cases connective with
      | and =>
          exact ⟨.binary rfl leftNormalizes rightNormalizes,
            .binary rfl notLeft notRight⟩
      | or =>
          exact ⟨.binary rfl leftNormalizes rightNormalizes,
            .binary rfl notLeft notRight⟩
      | xor =>
          exact ⟨.binary rfl (leftNormalizes.conj notRight)
              (notLeft.conj rightNormalizes),
            .binary rfl (leftNormalizes.conj rightNormalizes)
              (notLeft.conj notRight)⟩

end Shape

end Formula

end Possibilistic
