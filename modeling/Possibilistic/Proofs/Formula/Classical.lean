import Possibilistic.Proofs.World.Valuation

/-!
# Classical formulas

A formula is classical when its only constants are zero and one.  In a world of
a vocabulary that covers it, such a formula is fully true or fully false, and
its negation is false where it is true.
-/

namespace Possibilistic

namespace Degree

/-- Fully false or fully true. -/
def IsCrisp (degree : Degree) : Prop :=
  degree.isZero = true ∨ degree.isOne = true

theorem isZero_eq_false_of_isOne {degree : Degree}
    (full : degree.isOne = true) : degree.isZero = false := by
  have positive := Binary64.unit_pos
  have units := isOne_iff.mp full
  apply Bool.eq_false_iff.mpr
  intro vanishing
  have := isZero_iff.mp vanishing
  omega

theorem isNegligible_eq_false_of_isOne {degree : Degree}
    (full : degree.isOne = true) : degree.isNegligible = false := by
  apply Bool.eq_false_iff.mpr
  intro negligible
  have vanishing := complement_isZero_iff.mpr full
  rw [isZero_eq_false_of_isOne negligible] at vanishing
  cases vanishing

namespace IsCrisp

theorem complement {degree : Degree} (crisp : degree.IsCrisp) :
    degree.complement.IsCrisp := by
  rcases crisp with vanishing | full
  · exact .inr (complement_isOne_of_isZero vanishing)
  · exact .inl (complement_isZero_iff.mpr full)

theorem complement_isOne_iff {degree : Degree} (crisp : degree.IsCrisp) :
    degree.complement.isOne = true ↔ degree.isZero = true := by
  constructor
  · intro complementFull
    rcases crisp with vanishing | full
    · exact vanishing
    · have notFull : degree.complement.isOne = false :=
        isNegligible_eq_false_of_isOne full
      rw [notFull] at complementFull
      cases complementFull
  · exact complement_isOne_of_isZero

theorem complement_complement_le {degree : Degree} (crisp : degree.IsCrisp) :
    degree.complement.complement ≤ degree := by
  rcases crisp with vanishing | full
  · have lost : degree.complement.complement.isZero = true :=
      complement_isZero_iff.mpr (complement_isOne_of_isZero vanishing)
    rw [le_iff, isZero_iff.mp lost]
    exact Nat.zero_le _
  · rw [le_iff, isOne_iff.mp full]
    exact degree.complement.complement.atMostOne

theorem min {left right : Degree} (leftCrisp : left.IsCrisp)
    (rightCrisp : right.IsCrisp) : (min left right).IsCrisp := by
  change (if right < left then right else left).IsCrisp
  split
  · exact rightCrisp
  · exact leftCrisp

theorem max {left right : Degree} (leftCrisp : left.IsCrisp)
    (rightCrisp : right.IsCrisp) : (max left right).IsCrisp := by
  change (if left < right then right else left).IsCrisp
  split
  · exact rightCrisp
  · exact leftCrisp

end IsCrisp

end Degree

namespace Formula

/-- Every constant of the formula is zero or one. -/
def isClassical : Formula → Bool
  | .atom a => a.constant?.all fun degree => degree.isZero || degree.isOne
  | .neg operand => operand.isClassical
  | .binary _ left right => left.isClassical && right.isClassical

/-- A world of a covering vocabulary decides every classical formula. -/
theorem truth_isCrisp {atoms : List Atom} {world : Interpretation}
    (inAll : world ∈ World.all atoms) {formula : Formula}
    (classical : formula.isClassical = true)
    (covered : formula.mentions ⊆ atoms) :
    (formula.truth world).IsCrisp := by
  induction formula with
  | atom symbol =>
      simp only [truth, Interpretation.truth]
      cases known : symbol.constant? with
      | some degree =>
          simpa [isClassical, known, Degree.IsCrisp] using classical
      | none =>
          have member : symbol ∈ atoms := by
            apply covered
            simp [mentions, Atom.isConstant, known]
          obtain ⟨chosen, equality⟩ :=
            World.exists_bitDegree_of_mem_all inAll member
          simp only [equality]
          cases chosen with
          | true => exact .inr (Degree.isOne_iff.mpr rfl)
          | false => exact .inl (Degree.isZero_iff.mpr rfl)
  | neg operand ih =>
      exact (ih classical covered).complement
  | binary connective left right leftIh rightIh =>
      simp only [isClassical, Bool.and_eq_true] at classical
      have leftCrisp := leftIh classical.1
        (fun _ member => covered (List.mem_append_left _ member))
      have rightCrisp := rightIh classical.2
        (fun _ member => covered (List.mem_append_right _ member))
      cases connective with
      | and => exact leftCrisp.min rightCrisp
      | or => exact leftCrisp.max rightCrisp
      | xor =>
          exact (leftCrisp.complement.min rightCrisp).max
            (leftCrisp.min rightCrisp.complement)

theorem isClassical_negated (formula : Formula) :
    formula.negated.isClassical = formula.isClassical := by
  cases formula <;> rfl

theorem mentions_negated (formula : Formula) :
    formula.negated.mentions = formula.mentions := by
  cases formula <;> rfl

theorem constant?_of_mem_mentions {formula : Formula} {atom : Atom}
    (mentioned : atom ∈ formula.mentions) : atom.constant? = none := by
  induction formula with
  | atom symbol =>
      cases known : symbol.constant? with
      | some degree => simp [mentions, Atom.isConstant, known] at mentioned
      | none =>
          have same : atom = symbol := by
            simpa [mentions, Atom.isConstant, known] using mentioned
          rw [same, known]
  | neg operand ih => exact ih mentioned
  | binary connective left right leftIh rightIh =>
      rcases List.mem_append.mp mentioned with inLeft | inRight
      · exact leftIh inLeft
      · exact rightIh inRight

/-- The opposite formula is false exactly where the formula is true. -/
theorem truth_negated_isZero_iff {atoms : List Atom} {world : Interpretation}
    (inAll : world ∈ World.all atoms) {formula : Formula}
    (classical : formula.isClassical = true)
    (covered : formula.mentions ⊆ atoms) :
    (formula.negated.truth world).isZero = true ↔
      (formula.truth world).isOne = true := by
  cases formula with
  | atom symbol => exact Degree.complement_isZero_iff
  | neg operand =>
      have crisp : (operand.truth world).IsCrisp :=
        truth_isCrisp inAll classical covered
      exact crisp.complement_isOne_iff.symm
  | binary connective left right => exact Degree.complement_isZero_iff

/-- The opposite of a formula that is decided is true where this is false. -/
theorem truth_negated_isOne_iff {world : Interpretation} {formula : Formula}
    (crisp : (formula.truth world).IsCrisp) :
    (formula.negated.truth world).isOne = true ↔
      (formula.truth world).isZero = true := by
  cases formula with
  | atom symbol => exact crisp.complement_isOne_iff
  | neg operand => exact Degree.complement_isZero_iff.symm
  | binary connective left right => exact crisp.complement_isOne_iff

theorem truth_disj_isZero_iff {world : Interpretation}
    {left right : Formula} :
    ((left.disj right).truth world).isZero = true ↔
      (left.truth world).isZero = true ∧ (right.truth world).isZero = true := by
  change (max (left.truth world) (right.truth world)).isZero = true ↔ _
  simp only [Degree.isZero_iff, Degree.units_max]
  omega

end Formula

end Possibilistic
