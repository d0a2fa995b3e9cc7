import Mathlib.Data.List.ReduceOption
import Possibilistic.Proofs.Formula.NegationNormal
import Possibilistic.Proofs.NormalForm.Exactness

/-!
# Which formulas have a disjunctive form

The conversion to disjunctive form repeats the turns of normalisation, and finds
no second operand exactly where these meet stacked negations.  Nothing else can
go wrong: every literal lies in the vocabulary of the formula, and all
conjunctions that are joined are over this vocabulary.  Main statement: a
formula whose negations stack on atoms only has both normal forms.
-/

namespace Possibilistic

theorem mapM_eq_ok {α β : Type} {accept : α → Except Fault β} {value : α → β}
    {items : List α} (accepted : ∀ item ∈ items, accept item = .ok (value item)) :
    items.mapM accept = .ok (items.map value) := by
  induction items with
  | nil => rfl
  | cons item rest ih =>
      obtain ⟨itemAccepted, restAccepted⟩ := List.forall_mem_cons.mp accepted
      rw [List.mapM_cons, itemAccepted, ih restAccepted]
      rfl

namespace Conjunction

theorem exists_literal?_of_isLiteral {literal : Formula}
    (isLiteral : literal.isLiteral = true) :
    ∃ symbol sign, literal? literal = some (symbol, sign) := by
  obtain ⟨symbol, rfl⟩ | ⟨symbol, rfl⟩ := Formula.literal_cases isLiteral
  · exact ⟨symbol, .asserted, rfl⟩
  · exact ⟨symbol, .denied, rfl⟩

/-- A literal mentions its atom, unless that is a constant. -/
theorem mem_mentions_of_literal? {literal : Formula} {symbol : Atom}
    {sign : Sign} (read : literal? literal = some (symbol, sign))
    (nonconstant : symbol.constant? = none) : symbol ∈ literal.mentions := by
  unfold literal? at read
  split at read
  · cases read
    simp [Formula.mentions, Atom.isConstant, nonconstant]
  · cases read
    simp [Formula.mentions, Atom.isConstant, nonconstant]
  · cases read

/-- A literal of the vocabulary is accepted. -/
theorem ofLiteral_eq_ok {atoms : List Atom} {literal : Formula}
    {symbol : Atom} {sign : Sign}
    (read : literal? literal = some (symbol, sign))
    (covered : symbol.constant? = none → symbol ∈ atoms) :
    ofLiteral atoms literal = .ok (ofAtom? atoms symbol sign) := by
  have accepted : (symbol.isConstant || atoms.contains symbol) = true := by
    cases known : symbol.constant? with
    | some degree => simp [Atom.isConstant, known]
    | none => simp [covered known]
  simp only [ofLiteral, read, accepted, if_true]

end Conjunction

namespace DisjunctiveForm

/-- The products of two forms, looking at the vocabularies of every pair. -/
def checkedProduct (left right : DisjunctiveForm) :
    Except Fault DisjunctiveForm := do
  let joined ← (left.terms.product right.terms).mapM fun (first, second) =>
    first.conjoin second
  pure (.ofList joined.reduceOption)

/-- Conjunctions over one vocabulary may be joined. -/
theorem checkedProduct_eq_ok {left right : DisjunctiveForm} {atoms : List Atom}
    (leftOver : left.IsOver atoms) (rightOver : right.IsOver atoms) :
    left.checkedProduct right = .ok (left.product right) := by
  have joined : (left.terms.product right.terms).mapM
      (fun (first, second) => first.conjoin second) =
        .ok ((left.terms.product right.terms).map fun (first, second) =>
          first.conjoin? second) := by
    apply mapM_eq_ok
    intro (first, second) member
    obtain ⟨inLeft, inRight⟩ := List.pair_mem_product.mp member
    have sameAtoms : first.atoms = second.atoms := by
      rw [(leftOver first inLeft).1, (rightOver second inRight).1]
    simp [Conjunction.conjoin, sameAtoms]
  have products : ((left.terms.product right.terms).map
      fun (first, second) => first.conjoin? second).reduceOption =
        left.terms.flatMap fun first =>
          right.terms.filterMap first.conjoin? := by
    simp [List.reduceOption, List.product, List.filterMap_flatMap,
      List.filterMap_map]
  rw [checkedProduct, joined, product, ← products]
  rfl

end DisjunctiveForm

namespace Formula

/-- The conversion with the checks of its parts: a literal has to lie in the
vocabulary, and only conjunctions over one vocabulary are joined. -/
def checkedDisjunctive (atoms : List Atom) (formula : Formula) :
    Except Fault DisjunctiveForm :=
  match _shape : formula.expand with
  | .atom symbol => do
      let term ← Conjunction.ofLiteral atoms (.atom symbol)
      pure (.ofList term.toList)
  | .neg (.atom symbol) => do
      let term ← Conjunction.ofLiteral atoms (.neg (.atom symbol))
      pure (.ofList term.toList)
  | .neg operand => do
      -- The first operand is converted before the second is found missing.
      let _ ← operand.checkedDisjunctive atoms
      .error .missingOperand
  | .binary .or left right => do
      let left ← left.checkedDisjunctive atoms
      let right ← right.checkedDisjunctive atoms
      pure (left.insertAll right.terms)
  | .binary _ left right => do
      let left ← left.checkedDisjunctive atoms
      let right ← right.checkedDisjunctive atoms
      left.checkedProduct right
termination_by formula.rank
decreasing_by
  all_goals
    apply rank_lt_of_mem_expand
    rw [_shape]
    simp [children]

section

variable {atoms : List Atom} {formula left right : Formula} {symbol : Atom}
  {sign : Sign} {leftForm rightForm : DisjunctiveForm}

theorem disjunctiveOver?_of_literal
    (read : Conjunction.literal? formula.expand = some (symbol, sign)) :
    formula.disjunctiveOver? atoms =
      some (.ofList (Conjunction.ofAtom? atoms symbol sign).toList) := by
  rw [disjunctiveOver?]
  split <;> simp_all [Conjunction.literal?]

theorem disjunctiveOver?_of_disj (shape : formula.expand = .disj left right)
    (leftReturned : left.disjunctiveOver? atoms = some leftForm)
    (rightReturned : right.disjunctiveOver? atoms = some rightForm) :
    formula.disjunctiveOver? atoms =
      some (leftForm.insertAll rightForm.terms) := by
  rw [disjunctiveOver?]
  split <;> simp_all

theorem disjunctiveOver?_of_conj (shape : formula.expand = .conj left right)
    (leftReturned : left.disjunctiveOver? atoms = some leftForm)
    (rightReturned : right.disjunctiveOver? atoms = some rightForm) :
    formula.disjunctiveOver? atoms = some (leftForm.product rightForm) := by
  rw [disjunctiveOver?]
  split <;> simp_all

theorem checkedDisjunctive_of_literal
    (read : Conjunction.literal? formula.expand = some (symbol, sign))
    (covered : symbol.constant? = none → symbol ∈ atoms) :
    formula.checkedDisjunctive atoms =
      .ok (.ofList (Conjunction.ofAtom? atoms symbol sign).toList) := by
  have accepted := Conjunction.ofLiteral_eq_ok read covered
  rw [checkedDisjunctive]
  split <;> simp_all [Conjunction.literal?]

theorem checkedDisjunctive_of_disj
    (shape : formula.expand = .disj left right)
    (leftReturned : left.checkedDisjunctive atoms = .ok leftForm)
    (rightReturned : right.checkedDisjunctive atoms = .ok rightForm) :
    formula.checkedDisjunctive atoms =
      .ok (leftForm.insertAll rightForm.terms) := by
  rw [checkedDisjunctive]
  split <;> simp_all [bind, Except.bind, pure, Except.pure]

theorem checkedDisjunctive_of_conj
    (shape : formula.expand = .conj left right)
    (leftReturned : left.checkedDisjunctive atoms = .ok leftForm)
    (rightReturned : right.checkedDisjunctive atoms = .ok rightForm)
    (leftOver : leftForm.IsOver atoms) (rightOver : rightForm.IsOver atoms) :
    formula.checkedDisjunctive atoms = .ok (leftForm.product rightForm) := by
  have accepted := DisjunctiveForm.checkedProduct_eq_ok leftOver rightOver
  rw [checkedDisjunctive]
  split <;> simp_all [bind, Except.bind]

/-- What normalises has a disjunctive form over every covering vocabulary, and
no check refuses a part of it. -/
theorem Normalizes.exists_form (normalizes : formula.Normalizes)
    (covered : formula.mentions ⊆ atoms) :
    ∃ form, formula.disjunctiveOver? atoms = some form ∧
      formula.checkedDisjunctive atoms = .ok form := by
  induction normalizes with
  | @literal formula literal =>
      obtain ⟨symbol, sign, read⟩ :=
        Conjunction.exists_literal?_of_isLiteral literal
      have symbolCovered : symbol.constant? = none → symbol ∈ atoms :=
        fun nonconstant => covered (mentions_expand_subset formula
          (Conjunction.mem_mentions_of_literal? read nonconstant))
      exact ⟨_, disjunctiveOver?_of_literal read,
        checkedDisjunctive_of_literal read symbolCovered⟩
  | @binary formula left right connective shape _ _ leftIh rightIh =>
      obtain ⟨leftCovered, rightCovered⟩ :=
        List.append_subset.mp (mentions_subset_of_expand shape covered)
      obtain ⟨leftForm, leftReturned, leftChecked⟩ := leftIh leftCovered
      obtain ⟨rightForm, rightReturned, rightChecked⟩ := rightIh rightCovered
      cases connective with
      | or =>
          exact ⟨_, disjunctiveOver?_of_disj shape leftReturned rightReturned,
            checkedDisjunctive_of_disj shape leftChecked rightChecked⟩
      | and =>
          have leftOver :=
            (expresses_disjunctiveOver? leftCovered leftReturned).isOver
          have rightOver :=
            (expresses_disjunctiveOver? rightCovered rightReturned).isOver
          exact ⟨_, disjunctiveOver?_of_conj shape leftReturned rightReturned,
            checkedDisjunctive_of_conj shape leftChecked rightChecked leftOver
              rightOver⟩
      | xor => exact absurd shape (expand_ne_xor formula left right)

end

/-- A formula whose negations stack on atoms only has both normal forms: its
negation normal form joins literals by conjunctions and disjunctions, and the
conversion to disjunctive form returns, also with all checks of its parts. -/
theorem normal_forms_exist_without_stacked_negations {formula : Formula}
    (onAtomsOnly : formula.stacksOnAtomsOnly = true) :
    formula.nnf.isNegationNormal = true ∧
      ∃ form, formula.disjunctive = .ok form ∧
        formula.checkedDisjunctive formula.atoms = .ok form := by
  have normalizes := (normalizes_of_stacksOnAtomsOnly onAtomsOnly).1
  have covered : formula.mentions ⊆ formula.atoms :=
    fun _ mentioned => Atom.mem_vocabulary.mpr mentioned
  obtain ⟨form, returned, checked⟩ := normalizes.exists_form covered
  refine ⟨normalizes.isNegationNormal_nnf, form, ?_, checked⟩
  rw [disjunctive, disjunctive?, returned]

/-- Rain under two negations beside wind without rain, under a negated exclusive
disjunction, which is expanded and moves a third negation over the two. -/
theorem normal_forms_exist_without_stacked_negations_wind :
    let rain : Formula := .atom ⟨"rain"⟩
    let wind : Formula := .atom ⟨"wind"⟩
    let formula := neg (xor (neg (neg rain)) (conj wind (neg rain)))
    formula.stacksOnAtomsOnly = true ∧
      formula.nnf.isNegationNormal = true ∧
      ∃ form, formula.disjunctive = .ok form ∧
        formula.checkedDisjunctive formula.atoms = .ok form := by
  intro rain wind formula
  have onAtomsOnly : formula.stacksOnAtomsOnly = true := rfl
  exact ⟨onAtomsOnly,
    normal_forms_exist_without_stacked_negations onAtomsOnly⟩

/-- Of four negations on an atom two are left, and of five the last one is, but
neither formula has a disjunctive form. -/
example :
    let four := neg (neg (neg (neg (.atom ⟨"rain"⟩))))
    four.nnf.isNegationNormal = false ∧ four.disjunctive? = none ∧
      (neg four).nnf.isNegationNormal = true ∧
      (neg four).disjunctive? = none := by
  simp only [← Option.isNone_iff_eq_none]
  decide +kernel

end Formula

end Possibilistic
