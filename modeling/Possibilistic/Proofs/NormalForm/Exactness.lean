import Possibilistic.Proofs.Formula.Classical
import Possibilistic.Proofs.NormalForm.Disjunctive

/-!
# Exactness of disjunctive normal form

The disjunctive form of a formula is built along its expansion.  A level that
the form reaches, the formula reaches.  The converse fails only where
contradictory terms were left out, for levels that some atom and its negation
both reach: these are at most one half, and vanish where every atom is decided.
Main statement: disjunctive normal form is a lower bound of the formula's truth
that is exact above one half and where every atom is decided.
-/

namespace Possibilistic

namespace DisjunctiveForm

/-- The form says what the formula says, as far as the atoms are decisive. -/
structure Expresses (atoms : List Atom) (formula : Formula)
    (form : DisjunctiveForm) : Prop where
  isOver : form.IsOver atoms
  sound : ∀ {world level}, formula.IsInvolutiveIn world → 0 < level.units →
    form.Reaches world level → level ≤ formula.truth world
  complete : ∀ {world level}, formula.IsInvolutiveIn world →
    0 < level.units → Decisive world level atoms →
    level ≤ formula.truth world → form.Reaches world level

namespace Expresses

variable {atoms : List Atom} {formula : Formula} {form : DisjunctiveForm}

theorem of_expand {expanded : Formula} (shape : formula.expand = expanded)
    (expresses : Expresses atoms expanded form) :
    Expresses atoms formula form := by
  subst shape
  have involutiveExpand : ∀ {world}, formula.IsInvolutiveIn world →
      formula.expand.IsInvolutiveIn world :=
    fun involutive =>
      involutive.of_symbols_subset (Formula.symbols_expand_subset formula)
  constructor
  · exact expresses.isOver
  · intro world level involutive positive reached
    have below :=
      expresses.sound (involutiveExpand involutive) positive reached
    rwa [Degree.le_iff, Formula.units_truth_expand involutive] at below
  · intro world level involutive positive decisive below
    apply expresses.complete (involutiveExpand involutive) positive decisive
    rwa [Degree.le_iff, Formula.units_truth_expand involutive]

theorem of_literal {atom : Atom} {sign : Sign}
    (written : Conjunction.literalFormula? (atom, sign) = some formula)
    (covered : atom.constant? = none → atom ∈ atoms) :
    Expresses atoms formula
      (.ofList (Conjunction.ofAtom? atoms atom sign).toList) := by
  have present : sign ≠ .absent := by
    rintro rfl
    cases written
  have reaches : ∀ {world level}, 0 < level.units →
      ((ofList (Conjunction.ofAtom? atoms atom sign).toList).Reaches world
        level ↔ level ≤ formula.truth world) := by
    intro world level positive
    have weighed : level ≤ sign.weigh (world.truth atom) ↔
        ∀ formula ∈ Conjunction.literalFormula? (atom, sign),
          level ≤ formula.truth world :=
      Conjunction.le_weigh_iff_literalFormula? (atom, sign)
    rw [reaches_ofList_iff,
      Conjunction.exists_mem_ofAtom?_iff present covered positive, weighed,
      written]
    simp only [Option.mem_some_iff, forall_eq']
  constructor
  · intro term member
    exact Conjunction.over_ofAtom? (Option.mem_toList.mp (mem_ofList member))
  · intro world level _ positive
    exact (reaches positive).mp
  · intro world level _ positive _
    exact (reaches positive).mpr

variable {left right : Formula} {leftForm rightForm : DisjunctiveForm}
  (leftExpresses : Expresses atoms left leftForm)
  (rightExpresses : Expresses atoms right rightForm)

include leftExpresses rightExpresses

theorem disj :
    Expresses atoms (.disj left right)
      (leftForm.insertAll rightForm.terms) := by
  constructor
  · exact isOver_insertAll leftExpresses.isOver rightExpresses.isOver
  · intro world level involutive positive reached
    obtain ⟨leftInvolutive, rightInvolutive⟩ := involutive.of_binary
    apply Degree.le_max_iff.mpr
    rcases reaches_insertAll_iff.mp reached with inLeft | inRight
    · exact .inl (leftExpresses.sound leftInvolutive positive inLeft)
    · exact .inr (rightExpresses.sound rightInvolutive positive inRight)
  · intro world level involutive positive decisive below
    obtain ⟨leftInvolutive, rightInvolutive⟩ := involutive.of_binary
    apply reaches_insertAll_iff.mpr
    rcases Degree.le_max_iff.mp below with belowLeft | belowRight
    · exact .inl (leftExpresses.complete leftInvolutive positive decisive
        belowLeft)
    · exact .inr (rightExpresses.complete rightInvolutive positive decisive
        belowRight)

theorem conj :
    Expresses atoms (.conj left right) (leftForm.product rightForm) := by
  constructor
  · exact isOver_product leftExpresses.isOver rightExpresses.isOver
  · intro world level involutive positive reached
    obtain ⟨leftInvolutive, rightInvolutive⟩ := involutive.of_binary
    obtain ⟨inLeft, inRight⟩ :=
      reaches_of_product leftExpresses.isOver rightExpresses.isOver reached
    exact Degree.le_min_iff.mpr
      ⟨leftExpresses.sound leftInvolutive positive inLeft,
        rightExpresses.sound rightInvolutive positive inRight⟩
  · intro world level involutive positive decisive below
    obtain ⟨leftInvolutive, rightInvolutive⟩ := involutive.of_binary
    obtain ⟨belowLeft, belowRight⟩ := Degree.le_min_iff.mp below
    exact reaches_product leftExpresses.isOver rightExpresses.isOver decisive
      (leftExpresses.complete leftInvolutive positive decisive belowLeft)
      (rightExpresses.complete rightInvolutive positive decisive belowRight)

end Expresses

section

variable {world : Interpretation} {level : Degree} {atoms : List Atom}

/-- Above one half no degree lies together with its complement. -/
theorem decisive_of_half_lt (above : Degree.half < level) :
    Decisive world level atoms := by
  intro atom _ reached complementReached
  have lower := (world.truth atom).le_half_or_complement_le_half
  simp only [Degree.le_iff, Degree.lt_iff] at *
  omega

/-- No positive level is reached by a decided atom and its negation. -/
theorem decisive_of_isCrisp (positive : 0 < level.units)
    (crisp : ∀ atom ∈ atoms, (world.truth atom).IsCrisp) :
    Decisive world level atoms := by
  intro atom member reached complementReached
  rw [Degree.le_iff] at reached complementReached
  rcases crisp atom member with vanishing | full
  · rw [Degree.isZero_iff.mp vanishing] at reached
    omega
  · rw [Degree.isZero_iff.mp (Degree.complement_isZero_iff.mpr full)]
      at complementReached
    omega

end

end DisjunctiveForm

namespace Formula

open DisjunctiveForm

theorem mentions_subset_of_expand {formula expanded : Formula}
    {atoms : List Atom} (shape : formula.expand = expanded)
    (covered : formula.mentions ⊆ atoms) : expanded.mentions ⊆ atoms :=
  shape ▸ List.Subset.trans (mentions_expand_subset formula) covered

/-- The form is built along the expansion. -/
theorem expresses_disjunctiveOver? {atoms : List Atom} {formula : Formula}
    {form : DisjunctiveForm} (covered : formula.mentions ⊆ atoms)
    (returned : formula.disjunctiveOver? atoms = some form) :
    Expresses atoms formula form := by
  have symbolCovered : ∀ {symbol : Atom}, mentions (.atom symbol) ⊆ atoms →
      symbol.constant? = none → symbol ∈ atoms := by
    intro symbol mentioned nonconstant
    apply mentioned
    simp [mentions, Atom.isConstant, nonconstant]
  fun_induction disjunctiveOver? atoms formula generalizing form with
  | case1 formula symbol shape =>
      have symbolMentioned := mentions_subset_of_expand shape covered
      cases returned
      exact .of_expand shape (.of_literal rfl (symbolCovered symbolMentioned))
  | case2 formula symbol shape =>
      have symbolMentioned := mentions_subset_of_expand shape covered
      cases returned
      exact .of_expand shape (.of_literal rfl (symbolCovered symbolMentioned))
  | case3 formula operand notAtom shape => cases returned
  | case4 formula left right shape leftIh rightIh =>
      obtain ⟨leftCovered, rightCovered⟩ :=
        List.append_subset.mp (mentions_subset_of_expand shape covered)
      simp only [Option.bind_eq_bind, Option.bind_eq_some_iff, Option.pure_def,
        Option.some.injEq] at returned
      obtain ⟨leftForm, leftReturned, rightForm, rightReturned, rfl⟩ :=
        returned
      exact .of_expand shape ((leftIh leftCovered leftReturned).disj
        (rightIh rightCovered rightReturned))
  | case5 formula connective left right notOr shape leftIh rightIh =>
      obtain ⟨leftCovered, rightCovered⟩ :=
        List.append_subset.mp (mentions_subset_of_expand shape covered)
      simp only [Option.bind_eq_bind, Option.bind_eq_some_iff, Option.pure_def,
        Option.some.injEq] at returned
      obtain ⟨leftForm, leftReturned, rightForm, rightReturned, rfl⟩ :=
        returned
      have isAnd : connective = .and := by
        cases connective with
        | and => rfl
        | or => exact absurd rfl notOr
        | xor => exact absurd shape (expand_ne_xor formula left right)
      subst isAnd
      exact .of_expand shape ((leftIh leftCovered leftReturned).conj
        (rightIh rightCovered rightReturned))

theorem mem_atoms_iff {formula : Formula} {atom : Atom} :
    atom ∈ formula.atoms ↔
      atom ∈ formula.symbols ∧ atom.isConstant = false := by
  rw [atoms, Atom.mem_vocabulary, mentions_eq_filter_symbols, List.mem_filter]
  simp

theorem expresses_disjunctive? {formula : Formula} {form : DisjunctiveForm}
    (returned : formula.disjunctive? = some form) :
    Expresses formula.atoms formula form := by
  apply expresses_disjunctiveOver? _ returned
  exact fun atom mentioned => Atom.mem_vocabulary.mpr mentioned

section

variable {world : Interpretation} {formula : Formula} {form : DisjunctiveForm}
  (returned : formula.disjunctive? = some form)
  (involutive : formula.IsInvolutiveIn world)

include returned involutive

theorem truth_form_le : form.formula.truth world ≤ formula.truth world := by
  rcases Nat.eq_zero_or_pos (form.formula.truth world).units with
    vanishing | positive
  · rw [Degree.le_iff, vanishing]
    exact Nat.zero_le _
  · exact (expresses_disjunctive? returned).sound involutive positive
      ((le_truth_formula_iff positive).mp (Nat.le_refl _))

/-- The form is exact where the formula's truth is decisive. -/
theorem truth_form_beq_of_decisive
    (decisive : 0 < (formula.truth world).units →
      Decisive world (formula.truth world) formula.atoms) :
    (form.formula.truth world == formula.truth world) = true := by
  rw [Degree.beq_iff]
  apply Nat.le_antisymm (truth_form_le returned involutive)
  rcases Nat.eq_zero_or_pos (formula.truth world).units with
    vanishing | positive
  · rw [vanishing]
    exact Nat.zero_le _
  · exact (le_truth_formula_iff positive).mpr
      ((expresses_disjunctive? returned).complete involutive positive
        (decisive positive) (Nat.le_refl _))

end

/-- Where two complements give every atom and constant back, disjunctive normal
form is a lower bound of the truth, exact above one half and wherever every atom
is decided.  Its terms are conjunctions over the sorted atoms of the formula,
with bounds that do not vanish. -/
theorem disjunctive_form_is_exact_above_one_half {formula : Formula}
    {form : DisjunctiveForm} (returned : formula.disjunctive? = some form) :
    (∀ term ∈ form.terms,
      term.atoms = formula.atoms ∧ Atom.Ascending term.atoms ∧
      (∀ atom, atom ∈ term.atoms ↔
        atom ∈ formula.symbols ∧ atom.isConstant = false) ∧
      term.bound.isZero = false ∧ term.formula.isConjunction = true) ∧
    formula.dnf? = some form.formula ∧
    ∀ world : Interpretation,
      (∀ symbol ∈ formula.symbols,
        (world.truth symbol).isInvolutive = true) →
      form.formula.truth world ≤ formula.truth world ∧
      (Degree.half < formula.truth world →
        (form.formula.truth world == formula.truth world) = true) ∧
      ((∀ atom ∈ formula.atoms, (world.truth atom).IsCrisp) →
        (form.formula.truth world == formula.truth world) = true) := by
  refine ⟨?_, ?_, ?_⟩
  · intro term member
    obtain ⟨sameAtoms, nonzero⟩ :=
      (expresses_disjunctive? returned).isOver term member
    rw [sameAtoms]
    exact ⟨rfl, Atom.ascending_vocabulary _, fun atom => mem_atoms_iff,
      nonzero, term.isConjunction_formula⟩
  · rw [dnf?, returned, Option.map_some]
  · intro world involutive
    refine ⟨truth_form_le returned involutive, ?_, ?_⟩
    · intro above
      exact truth_form_beq_of_decisive returned involutive fun _ =>
        decisive_of_half_lt above
    · intro crisp
      exact truth_form_beq_of_decisive returned involutive fun positive =>
        decisive_of_isCrisp positive crisp

/-- Rain, and no rain or three quarters: the contradictory pair is left out, and
the graded constant stays as a bound.  Nothing is lost where it rains by three
quarters. -/
theorem disjunctive_form_is_exact_above_one_half_rain :
    let rain : Formula := .atom ⟨"rain"⟩
    let formula := rain.conj ((Formula.neg rain).disj (.atom ⟨"0.75"⟩))
    let world := Interpretation.ofList
      [(⟨"rain"⟩, Degree.half.mean Degree.one)]
    ∃ form, formula.disjunctive? = some form ∧
      form.formula = rain.conj (.atom ⟨"0.75"⟩) ∧
      (∀ symbol ∈ formula.symbols,
        (world.truth symbol).isInvolutive = true) ∧
      Degree.half < formula.truth world ∧
      (form.formula.truth world == formula.truth world) = true := by
  intro rain formula world
  obtain ⟨form, returned⟩ : ∃ form, formula.disjunctive? = some form :=
    Option.isSome_iff_exists.mp (by decide +kernel)
  have exact := disjunctive_form_is_exact_above_one_half returned
  have written : formula.dnf? = some (rain.conj (.atom ⟨"0.75"⟩)) := by
    decide +kernel
  have involutive : ∀ symbol ∈ formula.symbols,
      (world.truth symbol).isInvolutive = true := by decide +kernel
  have above : Degree.half < formula.truth world := by decide +kernel
  refine ⟨form, returned, ?_, involutive, above,
    (exact.2.2 world involutive).2.1 above⟩
  exact Option.some.inj (exact.2.1.symm.trans written)

/-- The strict inequality is needed: an unassigned atom and its negation are one
half true together, and their form is false. -/
example :
    let rain : Formula := .atom ⟨"rain"⟩
    let formula := rain.conj (.neg rain)
    formula.dnf? = some bottom ∧
      formula.truth Interpretation.empty = Degree.half := by
  decide +kernel

end Formula

end Possibilistic
