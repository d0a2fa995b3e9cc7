import Possibilistic.Proofs.Degree.Involution
import Possibilistic.Proofs.Formula.Classical

/-!
# Crisp interpretations as worlds

An interpretation that decides the atoms of a vocabulary is as good as one of
its worlds: formulas over the vocabulary have equal truth in both, up to the
sign of zero.
-/

namespace Possibilistic

/-- The number of a formula's truth depends on the numbers of its atoms. -/
theorem Formula.units_truth_congr {left right : Interpretation}
    {formula : Formula}
    (agree : ∀ atom ∈ formula.mentions,
      (left.truth atom).units = (right.truth atom).units) :
    (formula.truth left).units = (formula.truth right).units := by
  induction formula with
  | atom symbol =>
      cases known : symbol.constant? with
      | some degree => simp only [truth, Interpretation.truth, known]
      | none =>
          have mentioned : symbol ∈ (Formula.atom symbol).mentions := by
            simp [mentions, Atom.isConstant, known]
          exact agree symbol mentioned
  | neg operand ih =>
      exact congrArg Degree.units (Degree.complement_congr (ih agree))
  | binary connective first second firstIh secondIh =>
      exact Degree.units_connective_congr connective
        (firstIh fun atom member => agree atom (List.mem_append_left _ member))
        (secondIh fun atom member =>
          agree atom (List.mem_append_right _ member))

namespace World

theorem units_bitDegree_isOne {degree : Degree} (crisp : degree.IsCrisp) :
    (bitDegree degree.isOne).units = degree.units := by
  rcases crisp with vanishing | full
  · have notFull : degree.isOne = false := by
      apply Bool.eq_false_iff.mpr
      intro full
      rw [Degree.isZero_eq_false_of_isOne full] at vanishing
      cases vanishing
    rw [notFull, Degree.isZero_iff.mp vanishing]
    rfl
  · rw [full, Degree.isOne_iff.mp full]
    rfl

/-- A crisp interpretation of a vocabulary has a twin among its worlds. -/
theorem exists_twin {atoms : List Atom}
    (nonconstant : ∀ atom ∈ atoms, atom.constant? = none)
    {interpretation : Interpretation}
    (crisp : ∀ atom ∈ atoms, (interpretation.truth atom).IsCrisp) :
    ∃ world ∈ all atoms, ∀ formula : Formula, formula.mentions ⊆ atoms →
      (formula.truth interpretation).units = (formula.truth world).units := by
  obtain ⟨world, inAll, chosen⟩ := exists_mem_all atoms fun atom =>
    (interpretation.truth atom).isOne
  refine ⟨world, inAll, ?_⟩
  intro formula covered
  apply Formula.units_truth_congr
  intro atom mentioned
  have member := covered mentioned
  have assigned : world.truth atom =
      bitDegree (interpretation.truth atom).isOne := by
    rw [← chosen atom member]
    simp only [Interpretation.truth, nonconstant atom member]
  rw [assigned, units_bitDegree_isOne (crisp atom member)]

end World

end Possibilistic
