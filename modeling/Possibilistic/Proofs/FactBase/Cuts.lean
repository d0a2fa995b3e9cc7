import Possibilistic.Proofs.FactBase.Necessity

/-!
# Entailment by cuts

The cut at a degree takes the facts that reach it as certain, whether or not it
is a level of the base.  A formula that a cut entails fully is entailed by every
lower cut, also when facts and formula have graded constants, so the necessity
that the scan over the levels finds is the greatest degree whose cut entails the
formula.
-/

namespace Possibilistic

namespace FactBase

variable {base : FactBase} {formula : Formula}

/-- The facts that reach the degree, taken as certain, entail the formula
fully. -/
def CutEntails (base : FactBase) (formula : Formula) (degree : Degree) : Prop :=
  ((base.cut degree).models formula).value.isOne = true

instance (base : FactBase) (formula : Formula) :
    DecidablePred (base.CutEntails formula) := fun _ =>
  inferInstanceAs (Decidable (_ = true))

/-- One vocabulary serves all cuts, although each has its own. -/
theorem cutEntails_iff_sustains {degree : Degree} :
    base.CutEntails formula degree ↔
      base.facts.Sustains (base.vocabularyWith formula) formula degree := by
  rw [CutEntails, value_models]
  exact entailment_cut_isOne_iff (mentions_facts_subset base formula)
    (mentions_formula_subset base formula) degree

/-- Entailment by a cut is inherited by every lower cut. -/
theorem CutEntails.antitone {low high : Degree}
    (entails : base.CutEntails formula high) (ordered : low ≤ high) :
    base.CutEntails formula low := by
  rw [cutEntails_iff_sustains] at entails ⊢
  exact entails.antitone ordered

/-- The graded facts entail a formula fully when the certain ones do. -/
theorem models_isOne_iff_cutEntails_one :
    (base.models formula).value.isOne = true ↔
      base.CutEntails formula Degree.one := by
  rw [cutEntails_iff_sustains, value_models]
  exact entailment_isOne_iff (mentions_facts_subset base formula)
    (mentions_formula_subset base formula)

/-- A positive degree is reached by the necessity of a formula exactly when its
cut entails the formula. -/
theorem le_necessity_iff_cutEntails (nonconstant : formula.constant? = none)
    {degree : Degree} (positive : 0 < degree.units) :
    degree ≤ (base.necessity formula).value ↔
      base.CutEntails formula degree := by
  rw [cutEntails_iff_sustains]
  exact le_necessity_iff (mentions_facts_subset base formula)
    (mentions_formula_subset base formula) nonconstant positive

/-- The necessity of a formula is the greatest positive degree whose cut entails
it fully, and zero where no such cut does.  This rests on two facts that the
scan relies on: lower cuts inherit entailment, and the graded base entails a
formula exactly when its certain facts do. -/
theorem necessity_is_greatest_entailing_degree
    (nonconstant : formula.constant? = none) :
    ((∃ degree, degree.isZero = false ∧ base.CutEntails formula degree) →
      IsGreatest
        {degree | degree.isZero = false ∧ base.CutEntails formula degree}
        (base.necessity formula).value) ∧
    ((∀ degree, base.CutEntails formula degree → degree.isZero = true) →
      (base.necessity formula).value = Degree.zero) ∧
    (∀ low high : Degree, low ≤ high →
      base.CutEntails formula high → base.CutEntails formula low) ∧
    ((base.models formula).value.isOne = true ↔
      base.CutEntails formula Degree.one) := by
  have reached : ∀ degree : Degree, degree.isZero = false →
      (degree ≤ (base.necessity formula).value ↔
        base.CutEntails formula degree) := fun _ nonzero =>
    le_necessity_iff_cutEntails nonconstant
      (Degree.pos_of_isZero_eq_false nonzero)
  refine ⟨?_, ?_, ?_, models_isOne_iff_cutEntails_one⟩
  · rintro ⟨degree, nonzero, entails⟩
    have below := (reached degree nonzero).mpr entails
    have necessityNonzero : (base.necessity formula).value.isZero = false := by
      apply Bool.eq_false_iff.mpr
      intro vanishing
      have positive := Degree.pos_of_isZero_eq_false nonzero
      rw [Degree.le_iff, Degree.isZero_iff.mp vanishing] at below
      omega
    constructor
    · exact ⟨necessityNonzero, (reached _ necessityNonzero).mp (Nat.le_refl _)⟩
    · rintro other ⟨otherNonzero, otherEntails⟩
      exact (reached other otherNonzero).mpr otherEntails
  · intro onlyZero
    have vanishing : (base.necessity formula).value.isZero = true := by
      by_contra nonzero
      have nonzero := Bool.eq_false_iff.mpr nonzero
      have entails := (reached _ nonzero).mp (Nat.le_refl _)
      rw [onlyZero _ entails] at nonzero
      cases nonzero
    exact Degree.ext_units (Degree.isZero_iff.mp vanishing)
      (negativeZero_necessity nonconstant)
  · exact fun low high ordered entails => entails.antitone ordered

/-- Half certain that it rains at least a little and certain that rain wets the
road, one is half certain that the road is wet: the half is a level, and no
higher cut says so. -/
theorem necessity_is_greatest_entailing_degree_drizzle :
    let rain : Formula := .atom ⟨"rain"⟩
    let wet : Formula := .atom ⟨"wet"⟩
    let base : FactBase :=
      { facts := (FactSet.empty.tell (rain.conj (.atom ⟨"0.25"⟩))
          Degree.half).tell (rain.neg.disj wet) Degree.one
        counted := true
        warnAbove := 20 }
    wet.constant? = none ∧ (base.necessity wet).value = Degree.half ∧
      IsGreatest {degree | degree.isZero = false ∧ base.CutEntails wet degree}
        (base.necessity wet).value := by
  intro rain wet base
  have nonconstant : wet.constant? = none := by decide +kernel
  refine ⟨nonconstant, by decide +kernel, ?_⟩
  exact (@necessity_is_greatest_entailing_degree base wet nonconstant).1
    ⟨Degree.half, by decide +kernel, by decide +kernel⟩

end FactBase

end Possibilistic
