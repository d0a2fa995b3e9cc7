import Possibilistic.NormalForm.Conjunction
import Possibilistic.Proofs.Degree.Arithmetic
import Possibilistic.Proofs.Formula.Joining
import Possibilistic.Proofs.Numeral.Text

/-!
# The truth of conjunctions

The formula of a conjunction reaches the levels that all its literals and its
bound reach, because the constant of a degree denotes this degree.  Two
conjunctions over one vocabulary together reach what both reach; where they
contradict each other, an atom and its negation reach every such level.
-/

namespace Possibilistic

theorem Formula.constant?_constant (degree : Degree) :
    (Formula.constant degree).constant? = some degree := by
  change Atom.constant? ⟨degree.toBinary64.text⟩ = some degree
  simp only [Atom.constant?, Numeral.number?_text, Option.bind_eq_bind,
    Option.bind_some, Degree.ofBinary64?_toBinary64]

theorem Degree.le_one (degree : Degree) : degree ≤ one :=
  degree.atMostOne

namespace Sign

/-- The truth of what the sign says of an atom of this truth. -/
def weigh : Sign → Degree → Degree
  | .denied, truth => truth.complement
  | .absent, _ => Degree.one
  | .asserted, truth => truth

variable {left right : Sign} {truth level : Degree}

theorem le_weigh_conjoin? {joined : Sign}
    (together : left.conjoin? right = some joined) :
    level ≤ joined.weigh truth ↔
      level ≤ left.weigh truth ∧ level ≤ right.weigh truth := by
  have reached := level.le_one
  cases left <;> cases right <;> cases together <;> simp [weigh, reached]

/-- Signs that clash assert and deny. -/
theorem le_of_clash (clash : left.conjoin? right = none)
    (leftReached : level ≤ left.weigh truth)
    (rightReached : level ≤ right.weigh truth) :
    level ≤ truth ∧ level ≤ truth.complement := by
  cases left <;> cases right <;> cases clash
  · exact ⟨rightReached, leftReached⟩
  · exact ⟨leftReached, rightReached⟩

end Sign

namespace Conjunction

variable {world : Interpretation} {level : Degree}

/-- Every literal reaches the level. -/
def LiteralsReach (world : Interpretation) (level : Degree)
    (literals : List (Atom × Sign)) : Prop :=
  ∀ literal ∈ literals, level ≤ literal.2.weigh (world.truth literal.1)

/-- Every literal and the bound reach the level. -/
def Reaches (world : Interpretation) (level : Degree)
    (conjunction : Conjunction) : Prop :=
  LiteralsReach world level conjunction.literals ∧ level ≤ conjunction.bound

/-- Equal conjunctions reach the same levels. -/
theorem reaches_congr {left right : Conjunction}
    (same : (left == right) = true) :
    left.Reaches world level ↔ right.Reaches world level := by
  obtain ⟨sameLiterals, sameBound⟩ := Bool.and_eq_true_iff.mp same
  rw [Reaches, Reaches, beq_iff_eq.mp sameLiterals, Degree.le_iff,
    Degree.le_iff, Degree.beq_iff.mp sameBound]

theorem le_weigh_iff_literalFormula? (literal : Atom × Sign) :
    level ≤ literal.2.weigh (world.truth literal.1) ↔
      ∀ formula ∈ literalFormula? literal, level ≤ formula.truth world := by
  have reached := level.le_one
  obtain ⟨atom, sign⟩ := literal
  cases sign <;> simp [Sign.weigh, literalFormula?, Formula.truth, reached]

/-- The formula has the truth that the conjunction describes. -/
theorem le_truth_formula_iff {conjunction : Conjunction} :
    level ≤ conjunction.formula.truth world ↔
      conjunction.Reaches world level := by
  have literals : (∀ formula ∈
      conjunction.literals.filterMap literalFormula?,
        level ≤ formula.truth world) ↔
          LiteralsReach world level conjunction.literals := by
    simp only [LiteralsReach, le_weigh_iff_literalFormula?,
      List.mem_filterMap, Option.mem_def]
    constructor
    · intro all literal member formula written
      exact all formula ⟨literal, member, written⟩
    · rintro all formula ⟨literal, member, written⟩
      exact all literal member formula written
  have bound : (∀ formula ∈
      (if conjunction.bound.isOne then []
        else [Formula.constant conjunction.bound]),
        level ≤ formula.truth world) ↔ level ≤ conjunction.bound := by
    split
    · rename_i full
      have reached := level.atMostOne
      rw [Degree.le_iff, Degree.isOne_iff.mp full]
      simp [reached]
    · simp [Formula.truth_of_constant?
        (Formula.constant?_constant conjunction.bound)]
  rw [formula, Formula.le_truth_conjAll_iff, List.forall_mem_append, literals,
    bound, Reaches]

theorem conjoinLiterals?_cons_eq_some {atom other : Atom}
    {leftSign rightSign : Sign} {lefts rights joined : List (Atom × Sign)}
    (together : conjoinLiterals? ((atom, leftSign) :: lefts)
      ((other, rightSign) :: rights) = some joined) :
    ∃ sign rest, leftSign.conjoin? rightSign = some sign ∧
      conjoinLiterals? lefts rights = some rest ∧
        joined = (atom, sign) :: rest := by
  simp only [conjoinLiterals?, Option.bind_eq_bind, Option.bind_eq_some_iff,
    Option.pure_def, Option.some.injEq] at together
  obtain ⟨sign, signs, rest, restTogether, rfl⟩ := together
  exact ⟨sign, rest, signs, restTogether, rfl⟩

theorem map_fst_conjoinLiterals? {lefts rights joined : List (Atom × Sign)}
    (sameAtoms : lefts.map Prod.fst = rights.map Prod.fst)
    (together : conjoinLiterals? lefts rights = some joined) :
    joined.map Prod.fst = lefts.map Prod.fst := by
  induction lefts generalizing rights joined with
  | nil =>
      cases together
      rfl
  | cons left lefts ih =>
      cases rights with
      | nil => cases sameAtoms
      | cons right rights =>
          obtain ⟨sign, rest, _, restTogether, rfl⟩ :=
            conjoinLiterals?_cons_eq_some together
          rw [List.map_cons, List.map_cons,
            ih (List.cons.inj sameAtoms).2 restTogether]

theorem literalsReach_conjoinLiterals?_iff
    {lefts rights joined : List (Atom × Sign)}
    (sameAtoms : lefts.map Prod.fst = rights.map Prod.fst)
    (together : conjoinLiterals? lefts rights = some joined) :
    LiteralsReach world level joined ↔
      LiteralsReach world level lefts ∧ LiteralsReach world level rights := by
  induction lefts generalizing rights joined with
  | nil =>
      rw [List.map_nil, eq_comm, List.map_eq_nil_iff] at sameAtoms
      cases sameAtoms
      cases together
      exact (and_self_iff).symm
  | cons left lefts ih =>
      cases rights with
      | nil => cases sameAtoms
      | cons right rights =>
          obtain ⟨sign, rest, signs, restTogether, rfl⟩ :=
            conjoinLiterals?_cons_eq_some together
          obtain ⟨sameHead, sameRest⟩ := List.cons.inj sameAtoms
          have headReach : level ≤ sign.weigh (world.truth left.1) ↔
              level ≤ left.2.weigh (world.truth left.1) ∧
                level ≤ right.2.weigh (world.truth left.1) :=
            Sign.le_weigh_conjoin? signs
          have restReach := ih sameRest restTogether
          simp only [LiteralsReach, List.forall_mem_cons] at restReach ⊢
          rw [headReach, restReach, ← sameHead, and_and_and_comm]

/-- Literals that cannot be joined clash in an atom. -/
theorem exists_clash_of_conjoinLiterals? {lefts rights : List (Atom × Sign)}
    (sameAtoms : lefts.map Prod.fst = rights.map Prod.fst)
    (contradict : conjoinLiterals? lefts rights = none)
    (leftReached : LiteralsReach world level lefts)
    (rightReached : LiteralsReach world level rights) :
    ∃ atom ∈ lefts.map Prod.fst, level ≤ world.truth atom ∧
      level ≤ (world.truth atom).complement := by
  induction lefts generalizing rights with
  | nil => cases contradict
  | cons left lefts ih =>
      cases rights with
      | nil => cases sameAtoms
      | cons right rights =>
          obtain ⟨atom, leftSign⟩ := left
          obtain ⟨rightAtom, rightSign⟩ := right
          simp only [List.map_cons, List.cons.injEq] at sameAtoms
          obtain ⟨rfl, restAtoms⟩ := sameAtoms
          obtain ⟨leftHead, leftRest⟩ := List.forall_mem_cons.mp leftReached
          obtain ⟨rightHead, rightRest⟩ :=
            List.forall_mem_cons.mp rightReached
          cases signs : leftSign.conjoin? rightSign with
          | none =>
              exact ⟨atom, List.mem_cons_self,
                Sign.le_of_clash signs leftHead rightHead⟩
          | some sign =>
              have restContradict : conjoinLiterals? lefts rights = none := by
                rw [Option.eq_none_iff_forall_ne_some]
                simpa [conjoinLiterals?, signs] using contradict
              obtain ⟨clashing, member, both⟩ :=
                ih restAtoms restContradict leftRest rightRest
              exact ⟨clashing, List.mem_cons_of_mem _ member, both⟩

section

variable {left right : Conjunction}

theorem conjoin?_eq_some {joined : Conjunction}
    (together : left.conjoin? right = some joined) :
    ∃ literals,
      conjoinLiterals? left.literals right.literals = some literals ∧
        (min left.bound right.bound).isZero = false ∧
          joined = ⟨literals, min left.bound right.bound⟩ := by
  simp only [conjoin?, Option.bind_eq_bind, Option.bind_eq_some_iff]
    at together
  obtain ⟨literals, literalsTogether, bounded⟩ := together
  split at bounded
  · cases bounded
  · rename_i nonzero
    cases bounded
    exact ⟨literals, literalsTogether, by simpa using nonzero, rfl⟩

theorem bound_of_conjoin? {joined : Conjunction}
    (together : left.conjoin? right = some joined) :
    joined.bound.isZero = false := by
  obtain ⟨literals, _, nonzero, rfl⟩ := conjoin?_eq_some together
  exact nonzero

variable (sameAtoms : left.atoms = right.atoms)

include sameAtoms

theorem atoms_of_conjoin? {joined : Conjunction}
    (together : left.conjoin? right = some joined) :
    joined.atoms = left.atoms := by
  obtain ⟨literals, literalsTogether, _, rfl⟩ := conjoin?_eq_some together
  exact map_fst_conjoinLiterals? sameAtoms literalsTogether

/-- The conjunction of two reaches what both reach. -/
theorem reaches_conjoin?_iff {joined : Conjunction}
    (together : left.conjoin? right = some joined) :
    joined.Reaches world level ↔
      left.Reaches world level ∧ right.Reaches world level := by
  obtain ⟨literals, literalsTogether, _, rfl⟩ := conjoin?_eq_some together
  simp only [Reaches, Degree.le_min_iff, and_and_and_comm,
    literalsReach_conjoinLiterals?_iff sameAtoms literalsTogether]

/-- What both of two contradictory conjunctions reach, an atom and its negation
reach. -/
theorem exists_clash_of_conjoin? (contradict : left.conjoin? right = none)
    (leftNonzero : left.bound.isZero = false)
    (rightNonzero : right.bound.isZero = false)
    (leftReached : left.Reaches world level)
    (rightReached : right.Reaches world level) :
    ∃ atom ∈ left.atoms, level ≤ world.truth atom ∧
      level ≤ (world.truth atom).complement := by
  have literals : conjoinLiterals? left.literals right.literals = none := by
    cases together : conjoinLiterals? left.literals right.literals with
    | none => rfl
    | some literals =>
        have nonzero : (min left.bound right.bound).isZero = false := by
          change (if right.bound < left.bound then right.bound
            else left.bound).isZero = false
          split
          · exact rightNonzero
          · exact leftNonzero
        simp [conjoin?, together, nonzero] at contradict
  exact exists_clash_of_conjoinLiterals? sameAtoms literals leftReached.1
    rightReached.1

end

theorem literalsReach_single_iff {atoms : List Atom} {atom : Atom}
    {sign : Sign} (covered : atom ∈ atoms) :
    LiteralsReach world level (single atoms atom sign).literals ↔
      level ≤ sign.weigh (world.truth atom) := by
  have reached := level.le_one
  simp only [LiteralsReach, single, List.forall_mem_map]
  constructor
  · intro all
    simpa using all atom covered
  · intro literalReached other member
    split
    · rename_i same
      exact same ▸ literalReached
    · exact reached

theorem reaches_bounded_iff {atoms : List Atom} {bound : Degree} :
    ({ empty atoms with bound } : Conjunction).Reaches world level ↔
      level ≤ bound := by
  have reached := level.le_one
  simp [Reaches, LiteralsReach, empty, Sign.weigh, reached]

section

variable {atoms : List Atom} {atom : Atom} {sign : Sign}

/-- What a literal becomes reaches the positive levels that the literal reaches;
a constant that vanishes becomes nothing. -/
theorem exists_mem_ofAtom?_iff (present : sign ≠ .absent)
    (covered : atom.constant? = none → atom ∈ atoms)
    (positive : 0 < level.units) :
    (∃ conjunction ∈ (ofAtom? atoms atom sign).toList,
        conjunction.Reaches world level) ↔
      level ≤ sign.weigh (world.truth atom) := by
  unfold ofAtom?
  split
  · rename_i degree known
    have truth : world.truth atom = degree := by
      simp only [Interpretation.truth, known]
    have bound : (if sign = .denied then degree.complement else degree) =
        sign.weigh (world.truth atom) := by
      rw [truth]
      cases sign with
      | denied => rfl
      | absent => exact absurd rfl present
      | asserted => rfl
    dsimp only
    rw [bound]
    split
    · rename_i vanishing
      rw [Degree.le_iff, Degree.isZero_iff.mp vanishing]
      simp
      omega
    · simp only [Option.toList_some, List.mem_singleton, exists_eq_left,
        reaches_bounded_iff]
  · rename_i nonconstant
    have reached := level.le_one
    simp only [Option.toList_some, List.mem_singleton, exists_eq_left, Reaches,
      literalsReach_single_iff (covered nonconstant)]
    exact and_iff_left reached

theorem over_ofAtom? {conjunction : Conjunction}
    (made : ofAtom? atoms atom sign = some conjunction) :
    conjunction.atoms = atoms ∧ conjunction.bound.isZero = false := by
  unfold ofAtom? at made
  split at made
  · dsimp only at made
    generalize (if sign = .denied then _ else _ : Degree) = bound at made
    split at made
    · cases made
    · rename_i nonzero
      cases made
      exact ⟨by simp [Conjunction.atoms, empty, Function.comp_def],
        by simpa using nonzero⟩
  · cases made
    have nonzero : Degree.one.isZero = false := by decide +kernel
    exact ⟨by simp [Conjunction.atoms, single, Function.comp_def], nonzero⟩

end

theorem isLiteral_of_literalFormula? {literal : Atom × Sign}
    {formula : Formula} (written : literalFormula? literal = some formula) :
    formula.isLiteral = true := by
  obtain ⟨atom, sign⟩ := literal
  cases sign <;> cases written <;> rfl

theorem isConjunction_of_isLiteral {formula : Formula}
    (literal : formula.isLiteral = true) : formula.isConjunction = true := by
  cases formula with
  | atom symbol => rfl
  | neg operand => exact literal
  | binary connective left right => cases literal

theorem isConjunction_conjAll {formulas : List Formula}
    (literals : ∀ formula ∈ formulas, formula.isLiteral = true) :
    (Formula.conjAll formulas).isConjunction = true := by
  rw [Formula.conjAll]
  induction formulas with
  | nil => rfl
  | cons head tail ih =>
      obtain ⟨headLiteral, tailLiterals⟩ := List.forall_mem_cons.mp literals
      have headConjunction := isConjunction_of_isLiteral headLiteral
      cases tail with
      | nil => exact headConjunction
      | cons next rest =>
          rw [Formula.joinAll_cons (List.cons_ne_nil next rest)]
          exact Bool.and_eq_true_iff.mpr ⟨headConjunction, ih tailLiterals⟩

theorem isLiteral_of_mem_written {conjunction : Conjunction} {formula : Formula}
    (member : formula ∈ conjunction.literals.filterMap literalFormula? ++
      if conjunction.bound.isOne then []
      else [Formula.constant conjunction.bound]) :
    formula.isLiteral = true := by
  rcases List.mem_append.mp member with written | bound
  · obtain ⟨literal, _, equality⟩ := List.mem_filterMap.mp written
    exact isLiteral_of_literalFormula? equality
  · split at bound
    · cases bound
    · rw [List.mem_singleton.mp bound]
      rfl

/-- A conjunction is written as one. -/
theorem isConjunction_formula (conjunction : Conjunction) :
    conjunction.formula.isConjunction = true :=
  isConjunction_conjAll fun _ => isLiteral_of_mem_written

end Conjunction

end Possibilistic
