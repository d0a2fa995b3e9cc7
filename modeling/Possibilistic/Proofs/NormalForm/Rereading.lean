import Possibilistic.Proofs.NormalForm.Existence
import Possibilistic.Proofs.NormalForm.Restriction

/-!
# Disjunctive normal forms read back

The formula of a conjunction is read back clause by clause: a literal as the
conjunction that says this one thing, the constant of the bound as the bound,
and their conjunction as the one that says all of it.  The vocabulary may have
lost atoms, but none that a clause asserts or denies.  No two clauses that
differ become equal over it, so the union adds them one after the other.  Main
statement: the disjunctive normal form of a disjunctive normal form is this
form.
-/

namespace Possibilistic

namespace Formula

section

variable (atoms : List Atom)

theorem disjunctiveOver?_constant {degree : Degree}
    (nonzero : degree.isZero = false) :
    (constant degree).disjunctiveOver? atoms =
      some ⟨[{ Conjunction.empty atoms with bound := degree }]⟩ := by
  have known : Atom.constant? ⟨degree.text⟩ = some degree :=
    constant?_constant degree
  have term : Conjunction.ofAtom? atoms ⟨degree.text⟩ .asserted =
      some { Conjunction.empty atoms with bound := degree } := by
    simp [Conjunction.ofAtom?, known, nonzero]
  have read : Conjunction.literal? (constant degree).expand =
      some (⟨degree.text⟩, .asserted) := rfl
  rw [disjunctiveOver?_of_literal read, term]
  rfl

theorem disjunctiveOver?_literal {literal : Formula} {atom : Atom} {sign : Sign}
    (written : Conjunction.literalFormula? (atom, sign) = some literal)
    (nonconstant : atom.constant? = none) :
    literal.disjunctiveOver? atoms =
      some ⟨[Conjunction.single atoms atom sign]⟩ := by
  have term : Conjunction.ofAtom? atoms atom sign =
      some (Conjunction.single atoms atom sign) := by
    simp [Conjunction.ofAtom?, nonconstant]
  have read : Conjunction.literal? literal.expand = some (atom, sign) := by
    cases sign <;> cases written <;> rfl
  rw [disjunctiveOver?_of_literal read, term]
  rfl

/-- Another literal before a conjunction that is read back adds its sign. -/
theorem disjunctiveOver?_conjAll_cons {literal : Formula} {tail : List Formula}
    {atom : Atom} {sign : Sign} {signs : Atom → Sign} {bound : Degree}
    (written : Conjunction.literalFormula? (atom, sign) = some literal)
    (nonconstant : atom.constant? = none) (unnamed : signs atom = .absent)
    (nonzero : bound.isZero = false)
    (readTail : (conjAll tail).disjunctiveOver? atoms =
      some ⟨[⟨atoms.map fun other => (other, signs other), bound⟩]⟩) :
    (conjAll (literal :: tail)).disjunctiveOver? atoms =
      some ⟨[⟨atoms.map fun other =>
        (other, if other = atom then sign else signs other), bound⟩]⟩ := by
  have readLiteral := disjunctiveOver?_literal atoms written nonconstant
  have together :=
    Conjunction.single_conjoin? atoms atom sign signs unnamed nonzero
  by_cases alone : tail = []
  · -- Nothing is joined, as with the conjunction that says nothing.
    subst alone
    have nonzeroOne : Degree.one.isZero = false := by decide +kernel
    have readTop := disjunctiveOver?_constant atoms nonzeroOne
    have saysNothing :
        (⟨atoms.map fun other => (other, signs other), bound⟩ : Conjunction) =
          ⟨atoms.map fun other => (other, .absent), Degree.one⟩ := by
      have reread := readTail.symm.trans readTop
      simp only [Option.some.injEq, DisjunctiveForm.mk.injEq, List.cons.injEq,
        and_true] at reread
      exact reread
    have unchanged := Conjunction.single_conjoin? atoms atom sign
      (fun _ => .absent) rfl nonzeroOne
    rw [saysNothing, unchanged] at together
    rw [← Option.some.inj together]
    exact readLiteral
  · have product : DisjunctiveForm.product
        ⟨[Conjunction.single atoms atom sign]⟩
        ⟨[⟨atoms.map fun other => (other, signs other), bound⟩]⟩ =
          ⟨[⟨atoms.map fun other =>
            (other, if other = atom then sign else signs other), bound⟩]⟩ := by
      simp only [DisjunctiveForm.product, List.flatMap_cons, List.flatMap_nil,
        List.append_nil, List.filterMap_cons, List.filterMap_nil, together]
      rfl
    rw [conjAll, joinAll_cons alone,
      disjunctiveOver?_of_conj rfl readLiteral readTail, product]

/-- Literals of different atoms and a bound are read back. -/
theorem disjunctiveOver?_conjAll {named : List Atom} (signs : Atom → Sign)
    {bound : Degree} (distinct : named.Nodup)
    (within : ∀ atom ∈ named, signs atom ≠ .absent ∧ atom.constant? = none)
    (nonzero : bound.isZero = false) :
    (conjAll ((named.filterMap fun atom =>
        Conjunction.literalFormula? (atom, signs atom)) ++
          if bound.isOne then [] else [constant bound])).disjunctiveOver?
            atoms =
      some ⟨[⟨atoms.map fun atom =>
        (atom, if atom ∈ named then signs atom else .absent), bound⟩]⟩ := by
  induction named with
  | nil =>
      have readBound := disjunctiveOver?_constant atoms nonzero
      by_cases full : bound.isOne = true
      · have isOne := Degree.eq_one_of_one_le (Degree.isOne_iff_one_le.mp full)
        simp only [full, if_true]
        rw [isOne] at readBound ⊢
        exact readBound
      · simp only [full]
        exact readBound
  | cons atom rest ih =>
      obtain ⟨notInRest, restDistinct⟩ := List.nodup_cons.mp distinct
      obtain ⟨⟨present, nonconstant⟩, restWithin⟩ :=
        List.forall_mem_cons.mp within
      obtain ⟨literal, written, _⟩ :=
        Conjunction.exists_literalFormula? present nonconstant
      have step := disjunctiveOver?_conjAll_cons atoms written nonconstant
        (if_neg notInRest) nonzero (ih restDistinct restWithin)
      have sameSigns : ∀ other, (if other = atom then signs atom
          else if other ∈ rest then signs other else .absent) =
            if other ∈ atom :: rest then signs other else .absent := by
        intro other
        by_cases same : other = atom <;> simp [same]
      simp only [sameSigns] at step
      simpa only [List.filterMap_cons, written, List.cons_append] using step

/-- The formula of a conjunction is read back as the conjunction, over the
vocabulary that it is read with. -/
theorem disjunctiveOver?_conjunction {conjunction : Conjunction}
    (distinct : conjunction.atoms.Nodup)
    (within : conjunction.NamesWithin atoms)
    (nonzero : conjunction.bound.isZero = false) :
    conjunction.formula.disjunctiveOver? atoms =
      some ⟨[conjunction.restrictTo atoms]⟩ := by
  have namedWithin : ∀ atom ∈ conjunction.atoms.filter fun atom =>
      conjunction.sign atom ≠ .absent,
        conjunction.sign atom ≠ .absent ∧ atom.constant? = none := by
    intro atom member
    have named := of_decide_eq_true (List.mem_filter.mp member).2
    exact ⟨named, (within atom named).2⟩
  have read := disjunctiveOver?_conjAll atoms conjunction.sign
    (distinct.filter _) namedWithin nonzero
  have sameSigns : ∀ atom, (if atom ∈ conjunction.atoms.filter fun atom =>
      conjunction.sign atom ≠ .absent then conjunction.sign atom else .absent) =
        conjunction.sign atom := by
    intro atom
    split
    · rfl
    · rename_i outside
      by_contra named
      exact outside (List.mem_filter.mpr
        ⟨Conjunction.mem_atoms_of_sign (Ne.symm named),
          decide_eq_true (Ne.symm named)⟩)
  simp only [sameSigns, ← Conjunction.filterMap_literals_restrictTo,
    Conjunction.restrictTo_atoms distinct] at read
  exact read

end

end Formula

namespace DisjunctiveForm

/-- No two terms are equal. -/
def IsDistinct (form : DisjunctiveForm) : Prop :=
  form.terms.Pairwise fun first second => (first == second) = false

theorem isDistinct_insert {form : DisjunctiveForm} (distinct : form.IsDistinct)
    (conjunction : Conjunction) : (form.insert conjunction).IsDistinct := by
  unfold insert
  split
  · exact distinct
  · rename_i absent
    apply List.pairwise_append.mpr
    refine ⟨distinct, List.pairwise_singleton _ _, ?_⟩
    intro term member other isNew
    rw [List.mem_singleton.mp isNew]
    exact Bool.eq_false_iff.mpr fun same =>
      absent (List.any_eq_true.mpr ⟨term, member, same⟩)

theorem isDistinct_insertAll {form : DisjunctiveForm}
    (distinct : form.IsDistinct) (conjunctions : List Conjunction) :
    (form.insertAll conjunctions).IsDistinct := by
  unfold insertAll
  induction conjunctions generalizing form with
  | nil => exact distinct
  | cons head tail ih => exact ih (isDistinct_insert distinct head)

theorem isDistinct_ofList (conjunctions : List Conjunction) :
    (ofList conjunctions).IsDistinct :=
  isDistinct_insertAll List.Pairwise.nil conjunctions

/-- Terms that differ from each other and from those that are there are added in
their order. -/
theorem insertAll_eq_append (form : DisjunctiveForm)
    {conjunctions : List Conjunction}
    (distinct : IsDistinct ⟨form.terms ++ conjunctions⟩) :
    form.insertAll conjunctions = ⟨form.terms ++ conjunctions⟩ := by
  unfold insertAll
  induction conjunctions generalizing form with
  | nil => rw [List.append_nil]; rfl
  | cons head tail ih =>
      have inserted : form.insert head = ⟨form.terms ++ [head]⟩ := by
        have absent : ¬form.contains head = true := by
          intro present
          obtain ⟨term, member, same⟩ := List.any_eq_true.mp present
          have differ := (List.pairwise_append.mp distinct).2.2 term member head
            List.mem_cons_self
          rw [differ] at same
          cases same
        rw [insert, if_neg absent]
      rw [List.append_cons] at distinct ⊢
      rw [List.foldl_cons, inserted]
      exact ih _ distinct

end DisjunctiveForm

namespace Formula

open DisjunctiveForm

theorem isDistinct_disjunctiveOver? {atoms : List Atom} {formula : Formula}
    {form : DisjunctiveForm}
    (returned : formula.disjunctiveOver? atoms = some form) :
    form.IsDistinct := by
  fun_induction disjunctiveOver? atoms formula generalizing form with
  | case1 formula symbol shape =>
      cases returned
      exact isDistinct_ofList _
  | case2 formula symbol shape =>
      cases returned
      exact isDistinct_ofList _
  | case3 formula operand notAtom shape => cases returned
  | case4 formula left right shape leftIh rightIh =>
      simp only [Option.bind_eq_bind, Option.bind_eq_some_iff, Option.pure_def,
        Option.some.injEq] at returned
      obtain ⟨leftForm, leftReturned, rightForm, _, rfl⟩ := returned
      exact isDistinct_insertAll (leftIh leftReturned) _
  | case5 formula connective left right notOr shape leftIh rightIh =>
      simp only [Option.bind_eq_bind, Option.bind_eq_some_iff, Option.pure_def,
        Option.some.injEq] at returned
      obtain ⟨leftForm, _, rightForm, _, rfl⟩ := returned
      exact isDistinct_ofList _

/-- Clauses that are read back one by one, as different conjunctions, are read
back in their order. -/
theorem disjunctiveOver?_disjAll {atoms : List Atom}
    {terms : List Conjunction}
    (read : ∀ term ∈ terms,
      term.formula.disjunctiveOver? atoms = some ⟨[term.restrictTo atoms]⟩)
    (distinct : IsDistinct ⟨terms.map (Conjunction.restrictTo atoms)⟩) :
    (disjAll (terms.map Conjunction.formula)).disjunctiveOver? atoms =
      some ⟨terms.map (Conjunction.restrictTo atoms)⟩ := by
  induction terms with
  | nil =>
      have known : Conjunction.ofAtom? atoms ⟨Degree.zero.text⟩ .asserted =
          none := by
        have constant : Atom.constant? ⟨Degree.zero.text⟩ = some Degree.zero :=
          constant?_constant Degree.zero
        have vanishing : Degree.zero.isZero = true := Degree.isZero_iff.mpr rfl
        simp [Conjunction.ofAtom?, constant, vanishing]
      have literal : Conjunction.literal? bottom.expand =
          some (⟨Degree.zero.text⟩, .asserted) := rfl
      rw [List.map_nil, disjAll, joinAll, disjunctiveOver?_of_literal literal,
        known]
      rfl
  | cons head tail ih =>
      obtain ⟨readHead, readTail⟩ := List.forall_mem_cons.mp read
      by_cases alone : tail = []
      · subst alone
        exact readHead
      · have more : tail.map Conjunction.formula ≠ [] :=
          List.map_eq_nil_iff.not.mpr alone
        have tailDistinct :
            IsDistinct ⟨tail.map (Conjunction.restrictTo atoms)⟩ :=
          (List.pairwise_cons.mp distinct).2
        have added := insertAll_eq_append ⟨[head.restrictTo atoms]⟩ distinct
        rw [List.map_cons, disjAll, joinAll_cons more,
          disjunctiveOver?_of_disj rfl readHead (ih readTail tailDistinct),
          added]
        rfl

theorem expand_binary {connective : Connective} {left right : Formula}
    (notXor : connective ≠ .xor) :
    (binary connective left right).expand = .binary connective left right := by
  cases connective with
  | and => rfl
  | or => rfl
  | xor => exact absurd rfl notXor

theorem Normalizes.joinAll {connective : Connective} {empty : Formula}
    {formulas : List Formula} (notXor : connective ≠ .xor)
    (emptyNormalizes : empty.Normalizes)
    (normalize : ∀ formula ∈ formulas, formula.Normalizes) :
    (Formula.joinAll connective empty formulas).Normalizes := by
  induction formulas with
  | nil => exact emptyNormalizes
  | cons head tail ih =>
      obtain ⟨headNormalizes, tailNormalize⟩ :=
        List.forall_mem_cons.mp normalize
      by_cases alone : tail = []
      · subst alone
        exact headNormalizes
      · rw [joinAll_cons alone]
        exact .binary (expand_binary notXor) headNormalizes (ih tailNormalize)

theorem normalizes_of_isLiteral {formula : Formula}
    (literal : formula.isLiteral = true) : formula.Normalizes := by
  obtain ⟨symbol, rfl⟩ | ⟨symbol, rfl⟩ := literal_cases literal
  · exact .literal rfl
  · exact .literal rfl

/-- No negations stack in a disjunctive form. -/
theorem normalizes_form (form : DisjunctiveForm) :
    form.formula.Normalizes := by
  rw [DisjunctiveForm.formula, disjAll]
  refine .joinAll (by decide) (normalizes_of_isLiteral rfl) ?_
  intro clause inClauses
  obtain ⟨term, _, rfl⟩ := List.mem_map.mp inClauses
  rw [Conjunction.formula, conjAll]
  exact .joinAll (by decide) (normalizes_of_isLiteral rfl) fun _ inTerm =>
    normalizes_of_isLiteral (Conjunction.isLiteral_of_mem_written inTerm)

/-- A disjunctive normal form mentions every atom that one of its clauses
asserts or denies. -/
theorem namesWithin_atoms_form {formula : Formula} {form : DisjunctiveForm}
    (returned : formula.disjunctive? = some form) {term : Conjunction}
    (member : term ∈ form.terms) : term.NamesWithin form.formula.atoms := by
  obtain ⟨sameAtoms, _⟩ := (expresses_disjunctive? returned).isOver term member
  have distinct : term.atoms.Nodup := by
    rw [sameAtoms]
    exact Atom.nodup_of_ascending (Atom.ascending_vocabulary _)
  intro atom named
  have inOwn := Conjunction.mem_atoms_of_sign named
  have nonconstant : atom.constant? = none := by
    rw [sameAtoms] at inOwn
    simpa [Atom.isConstant] using (mem_atoms_iff.mp inOwn).2
  refine ⟨Atom.mem_vocabulary.mpr ?_, nonconstant⟩
  have stated := Conjunction.mem_literals_of_sign distinct named
  obtain ⟨literal, written, mentioned⟩ :=
    Conjunction.exists_literalFormula? named nonconstant
  have inClause : literal.mentions ⊆ term.formula.mentions :=
    mentions_subset_joinAll (List.mem_append_left _
      (List.mem_filterMap.mpr ⟨_, stated, written⟩))
  have inForm : term.formula.mentions ⊆ form.formula.mentions :=
    mentions_subset_joinAll (List.mem_map_of_mem member)
  exact inForm (inClause mentioned)

/-- A disjunctive normal form is its own: read back, it returns the same clauses
with the same literals in the same order, over the atoms that are left. -/
theorem disjunctive_normal_form_is_its_own {formula : Formula}
    {form : DisjunctiveForm} (returned : formula.disjunctive? = some form) :
    ∃ again : DisjunctiveForm,
      form.formula.disjunctive? = some again ∧
      form.formula.checkedDisjunctive form.formula.atoms = .ok again ∧
      again.terms = form.terms.map (Conjunction.restrictTo form.formula.atoms) ∧
      again.terms.map Conjunction.formula =
        form.terms.map Conjunction.formula ∧
      formula.dnf? = some form.formula ∧
      form.formula.dnf? = some form.formula := by
  have isOver := (expresses_disjunctive? returned).isOver
  have distinctAtoms : formula.atoms.Nodup :=
    Atom.nodup_of_ascending (Atom.ascending_vocabulary _)
  have within : ∀ term ∈ form.terms, term.NamesWithin form.formula.atoms :=
    fun _ => namesWithin_atoms_form returned
  have read : ∀ term ∈ form.terms,
      term.formula.disjunctiveOver? form.formula.atoms =
        some ⟨[term.restrictTo form.formula.atoms]⟩ := by
    intro term member
    obtain ⟨sameAtoms, nonzero⟩ := isOver term member
    exact disjunctiveOver?_conjunction _ (sameAtoms ▸ distinctAtoms)
      (within term member) nonzero
  have distinct : IsDistinct
      ⟨form.terms.map (Conjunction.restrictTo form.formula.atoms)⟩ := by
    apply List.pairwise_map.mpr
    apply List.Pairwise.imp_of_mem _ (isDistinct_disjunctiveOver? returned)
    intro first second inFirst inSecond differ
    apply Bool.eq_false_iff.mpr
    intro same
    have sameAtoms : first.atoms = second.atoms := by
      rw [(isOver first inFirst).1, (isOver second inSecond).1]
    have equal := Conjunction.eq_of_restrictTo_beq
      ((isOver first inFirst).1 ▸ distinctAtoms) sameAtoms
      (within first inFirst) (within second inSecond) same
    rw [equal] at differ
    cases differ
  have rewritten :
      (form.terms.map (Conjunction.restrictTo form.formula.atoms)).map
        Conjunction.formula = form.terms.map Conjunction.formula := by
    rw [List.map_map]
    apply List.map_congr_left
    intro term member
    obtain ⟨sameAtoms, _⟩ := isOver term member
    have ownWithin : term.NamesWithin term.atoms := fun atom named =>
      ⟨Conjunction.mem_atoms_of_sign named, (within term member atom named).2⟩
    calc
      (term.restrictTo form.formula.atoms).formula =
          (term.restrictTo term.atoms).formula :=
        Conjunction.formula_restrictTo (Atom.ascending_vocabulary _)
          (sameAtoms ▸ Atom.ascending_vocabulary _) (within term member)
          ownWithin
      _ = term.formula := by
        rw [Conjunction.restrictTo_atoms (sameAtoms ▸ distinctAtoms)]
  have reread := disjunctiveOver?_disjAll read distinct
  have covered : form.formula.mentions ⊆ form.formula.atoms :=
    fun _ mentioned => Atom.mem_vocabulary.mpr mentioned
  obtain ⟨again, rereadAgain, checked⟩ :=
    (normalizes_form form).exists_form covered
  obtain rfl : again =
      ⟨form.terms.map (Conjunction.restrictTo form.formula.atoms)⟩ :=
    Option.some.inj (rereadAgain.symm.trans reread)
  refine ⟨_, rereadAgain, checked, rfl, rewritten, ?_, ?_⟩
  · rw [dnf?, returned, Option.map_some]
  · rw [dnf?, disjunctive?, rereadAgain, Option.map_some,
      DisjunctiveForm.formula, rewritten, ← DisjunctiveForm.formula]

/-- Rain contradicts itself and is left out, and either sun or wind is half
true, which the name of the constant writes with a zero too many.  The form is
read back without rain and with the degree as it is written now. -/
theorem disjunctive_normal_form_is_its_own_wind :
    let rain : Formula := .atom ⟨"rain"⟩
    let sun : Formula := .atom ⟨"sun"⟩
    let wind : Formula := .atom ⟨"wind"⟩
    let half : Formula := .atom ⟨"0.5"⟩
    let formula := (rain.conj rain.neg).disj
      ((wind.xor sun).conj (.atom ⟨"0.50"⟩))
    let normal := (sun.neg.conj (wind.conj half)).disj
      (sun.conj (wind.neg.conj half))
    formula.atoms = [⟨"rain"⟩, ⟨"sun"⟩, ⟨"wind"⟩] ∧
      normal.atoms = [⟨"sun"⟩, ⟨"wind"⟩] ∧
      ∃ form again : DisjunctiveForm,
        formula.disjunctive? = some form ∧ form.formula = normal ∧
        normal.disjunctive? = some again ∧
        normal.checkedDisjunctive normal.atoms = .ok again ∧
        again.terms.map Conjunction.formula =
          form.terms.map Conjunction.formula ∧
        normal.dnf? = some normal := by
  intro rain sun wind half formula normal
  obtain ⟨form, returned⟩ : ∃ form, formula.disjunctive? = some form :=
    Option.isSome_iff_exists.mp (by decide +kernel)
  obtain ⟨again, reread, checked, _, sameClauses, written, rewritten⟩ :=
    disjunctive_normal_form_is_its_own returned
  have isNormal : form.formula = normal := by
    have computed : formula.dnf? = some normal := by decide +kernel
    exact Option.some.inj (written.symm.trans computed)
  rw [isNormal] at reread checked rewritten
  exact ⟨by decide +kernel, by decide +kernel, form, again, returned, isNormal,
    reread, checked, sameClauses, rewritten⟩

end Formula

end Possibilistic
