import Possibilistic.Proofs.Formula.Classical

/-!
# Joined formulas

A conjunction of a list reaches the levels that all members reach, a disjunction
the positive levels that one reaches.  It mentions what its members mention, and
it is classical when they are, since the empty conjunction and disjunction are
constants.
-/

namespace Possibilistic

namespace Formula

theorem constant?_top : top.constant? = some Degree.one := by
  decide +kernel

theorem constant?_bottom : bottom.constant? = some Degree.zero := by
  decide +kernel

theorem truth_of_constant? {formula : Formula} {degree : Degree}
    (known : formula.constant? = some degree) (world : Interpretation) :
    formula.truth world = degree := by
  cases formula with
  | atom symbol =>
      simp only [constant?] at known
      simp only [truth, Interpretation.truth, known]
  | neg operand => cases known
  | binary connective left right => cases known

theorem isClassical_iff_of_constant? {formula : Formula} {degree : Degree}
    (known : formula.constant? = some degree) :
    formula.isClassical = true ↔ degree.IsCrisp := by
  cases formula with
  | atom symbol =>
      simp only [constant?] at known
      simp [isClassical, known, Degree.IsCrisp]
  | neg operand => cases known
  | binary connective left right => cases known

theorem mentions_of_constant? {formula : Formula} {degree : Degree}
    (known : formula.constant? = some degree) : formula.mentions = [] := by
  cases formula with
  | atom symbol =>
      simp only [constant?] at known
      simp [mentions, Atom.isConstant, known]
  | neg operand => cases known
  | binary connective left right => cases known

theorem isClassical_top : top.isClassical = true :=
  (isClassical_iff_of_constant? constant?_top).mpr
    (.inr (Degree.isOne_iff.mpr rfl))

theorem isClassical_bottom : bottom.isClassical = true :=
  (isClassical_iff_of_constant? constant?_bottom).mpr
    (.inl (Degree.isZero_iff.mpr rfl))

/-- More formulas are joined to the first one. -/
theorem joinAll_cons {connective : Connective} {empty head : Formula}
    {tail : List Formula} (more : tail ≠ []) :
    joinAll connective empty (head :: tail) =
      .binary connective head (joinAll connective empty tail) := by
  rw [joinAll]
  exact more

theorem le_truth_conjAll_iff {formulas : List Formula}
    {world : Interpretation} {level : Degree} :
    level ≤ (conjAll formulas).truth world ↔
      ∀ formula ∈ formulas, level ≤ formula.truth world := by
  rw [conjAll]
  induction formulas with
  | nil =>
      rw [joinAll, truth_of_constant? constant?_top]
      exact iff_of_true level.atMostOne (by simp)
  | cons head tail ih =>
      cases tail with
      | nil => simp [joinAll]
      | cons next rest =>
          rw [joinAll_cons (List.cons_ne_nil next rest),
            List.forall_mem_cons, ← ih]
          exact Degree.le_min_iff

theorem le_truth_disjAll_iff {formulas : List Formula}
    {world : Interpretation} {level : Degree} (positive : 0 < level.units) :
    level ≤ (disjAll formulas).truth world ↔
      ∃ formula ∈ formulas, level ≤ formula.truth world := by
  rw [disjAll]
  induction formulas with
  | nil =>
      rw [joinAll, truth_of_constant? constant?_bottom]
      simp only [List.not_mem_nil, false_and, exists_false, iff_false]
      exact Nat.not_le.mpr positive
  | cons head tail ih =>
      cases tail with
      | nil => simp [joinAll]
      | cons next rest =>
          rw [joinAll_cons (List.cons_ne_nil next rest),
            List.exists_mem_cons_iff, ← ih]
          exact Degree.le_max_iff

theorem truth_conjAll_isOne_iff {formulas : List Formula}
    {world : Interpretation} :
    ((conjAll formulas).truth world).isOne = true ↔
      ∀ formula ∈ formulas, (formula.truth world).isOne = true := by
  simp only [Degree.isOne_iff_one_le, le_truth_conjAll_iff]

theorem truth_disjAll_isOne_iff {formulas : List Formula}
    {world : Interpretation} :
    ((disjAll formulas).truth world).isOne = true ↔
      ∃ formula ∈ formulas, (formula.truth world).isOne = true := by
  have onePositive : 0 < Degree.one.units := Binary64.unit_pos
  simp only [Degree.isOne_iff_one_le,
    le_truth_disjAll_iff onePositive]

theorem isClassical_joinAll {connective : Connective} {empty : Formula}
    {formulas : List Formula} (emptyClassical : empty.isClassical = true)
    (classical : ∀ formula ∈ formulas, formula.isClassical = true) :
    (joinAll connective empty formulas).isClassical = true := by
  induction formulas with
  | nil => exact emptyClassical
  | cons head tail ih =>
      obtain ⟨headClassical, tailClassical⟩ := List.forall_mem_cons.mp classical
      cases tail with
      | nil => exact headClassical
      | cons next rest =>
          rw [joinAll_cons (List.cons_ne_nil next rest)]
          simp only [isClassical, headClassical, ih tailClassical,
            Bool.and_self]

theorem mentions_joinAll_subset {connective : Connective} {empty : Formula}
    {formulas : List Formula} {atoms : List Atom}
    (emptyCovered : empty.mentions ⊆ atoms)
    (covered : ∀ formula ∈ formulas, formula.mentions ⊆ atoms) :
    (joinAll connective empty formulas).mentions ⊆ atoms := by
  induction formulas with
  | nil => exact emptyCovered
  | cons head tail ih =>
      obtain ⟨headCovered, tailCovered⟩ := List.forall_mem_cons.mp covered
      cases tail with
      | nil => exact headCovered
      | cons next rest =>
          rw [joinAll_cons (List.cons_ne_nil next rest)]
          exact List.append_subset.mpr ⟨headCovered, ih tailCovered⟩

theorem mentions_subset_joinAll {connective : Connective} {empty : Formula}
    {formulas : List Formula} {formula : Formula}
    (member : formula ∈ formulas) :
    formula.mentions ⊆ (joinAll connective empty formulas).mentions := by
  induction formulas with
  | nil => cases member
  | cons head tail ih =>
      cases tail with
      | nil =>
          rw [List.mem_singleton.mp member]
          exact List.Subset.refl _
      | cons next rest =>
          rw [joinAll_cons (List.cons_ne_nil next rest)]
          rcases List.mem_cons.mp member with same | inTail
          · rw [same]
            exact List.subset_append_left _ _
          · exact List.Subset.trans (ih inTail) (List.subset_append_right _ _)

end Formula

end Possibilistic
