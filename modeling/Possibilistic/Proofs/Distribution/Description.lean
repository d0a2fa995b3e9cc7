import Possibilistic.Proofs.Distribution.Measures
import Possibilistic.Proofs.FactBase.Congruence
import Possibilistic.Proofs.Formula.Joining
import Possibilistic.Proofs.World.Numbering

/-!
# Describing the worlds that reach a level

A formula describes a level of a distribution when it is true in exactly the
worlds that reach the level.  How possible facts leave such a formula depends on
these worlds only, and a higher level, which fewer worlds reach, is at most as
possible.
-/

namespace Possibilistic

namespace Distribution

/-- The formula is over the vocabulary, and it is true in the worlds that reach
the level and false in the others. -/
structure Describes (distribution : Distribution) (level : Degree)
    (formula : Formula) : Prop where
  covered : formula.mentions ⊆ distribution.atoms
  holds : ∀ number, number < World.count distribution.atoms →
    level ≤ distribution.degreeAt number →
      (formula.truth
        (World.numbered distribution.atoms (number : Nat))).isOne = true
  fails : ∀ number, number < World.count distribution.atoms →
    ¬level ≤ distribution.degreeAt number →
      (formula.truth
        (World.numbered distribution.atoms (number : Nat))).isZero = true

/-- All worlds have equal degrees. -/
def IsUniform (distribution : Distribution) : Prop :=
  ∀ number other, number < World.count distribution.atoms →
    other < World.count distribution.atoms →
      (distribution.degreeAt number == distribution.degreeAt other) = true

/-- A level above the least one. -/
def IsProperLevel (distribution : Distribution) (level : Degree) : Prop :=
  level ∈ distribution.levels ∧ ∃ lower ∈ distribution.levels, lower < level

theorem exists_degreeAt_eq {distribution : Distribution} {level : Degree}
    (member : level ∈ distribution.levels) :
    ∃ number, number < World.count distribution.atoms ∧
      distribution.degreeAt number = level := by
  obtain ⟨number, below, equality⟩ :=
    List.getElem_of_mem (Degree.mem_of_mem_levels member)
  refine ⟨number, ?_, ?_⟩
  · rw [← distribution.length_eq]
    exact below
  · rw [degreeAt_eq_getElem below, equality]

theorem exists_mem_levels {distribution : Distribution} {number : Nat}
    (inRange : number < World.count distribution.atoms) :
    ∃ level ∈ distribution.levels,
      level.units = (distribution.degreeAt number).units := by
  rw [← distribution.length_eq] at inRange
  rw [degreeAt_eq_getElem inRange]
  exact Degree.exists_mem_levels (List.getElem_mem inRange)

/-- The levels above the least one are those behind the first. -/
theorem mem_tail_levels_iff {distribution : Distribution} {level : Degree} :
    level ∈ distribution.levels.tail ↔ distribution.IsProperLevel level := by
  have ascending := Degree.pairwise_levels distribution.degrees
  unfold IsProperLevel levels
  generalize Degree.levels distribution.degrees = levels at ascending ⊢
  cases levels with
  | nil => simp
  | cons first later =>
      rw [List.pairwise_cons] at ascending
      rw [List.tail_cons]
      constructor
      · intro member
        exact ⟨List.mem_cons_of_mem _ member, first, List.mem_cons_self,
          ascending.1 level member⟩
      · rintro ⟨member, lower, lowerMember, below⟩
        rcases List.mem_cons.mp member with same | behind
        · rcases List.mem_cons.mp lowerMember with lowest | higher
          · rw [same, lowest] at below
            exact absurd below (Nat.lt_irrefl _)
          · rw [same] at below
            exact absurd (ascending.1 lower higher) (Nat.lt_asymm below)
        · exact behind

theorem exists_isLeast_isProperLevel {distribution : Distribution}
    {level : Degree} (proper : distribution.IsProperLevel level) :
    ∃ least, IsLeast {level | distribution.IsProperLevel level} least := by
  have member := mem_tail_levels_iff.mpr proper
  obtain ⟨first, later, split⟩ :=
    List.exists_cons_of_ne_nil (List.ne_nil_of_mem member)
  have ascending : distribution.levels.tail.Pairwise (· < ·) :=
    (Degree.pairwise_levels _).tail
  have sameLevels : {level | distribution.IsProperLevel level} =
      {level | level ∈ first :: later} := by
    ext level
    rw [Set.mem_ofPred_eq, ← mem_tail_levels_iff, split]
    rfl
  rw [split] at ascending
  rw [sameLevels]
  exact ⟨first, Degree.isLeast_of_ascending ascending⟩

theorem isProperLevel_of_lt {distribution : Distribution} {low high : Nat}
    (lowInRange : low < World.count distribution.atoms)
    (highInRange : high < World.count distribution.atoms)
    (below : distribution.degreeAt low < distribution.degreeAt high) :
    ∃ level, distribution.IsProperLevel level := by
  obtain ⟨lower, lowerMember, lowerUnits⟩ := exists_mem_levels lowInRange
  obtain ⟨level, member, units⟩ := exists_mem_levels highInRange
  refine ⟨level, member, lower, lowerMember, ?_⟩
  rw [Degree.lt_iff] at below ⊢
  rw [lowerUnits, units]
  exact below

theorem isUniform_iff {distribution : Distribution} :
    distribution.IsUniform ↔ ∀ level, ¬distribution.IsProperLevel level := by
  constructor
  · rintro uniform level ⟨member, lower, lowerMember, below⟩
    obtain ⟨number, inRange, reached⟩ := exists_degreeAt_eq member
    obtain ⟨other, otherInRange, missed⟩ := exists_degreeAt_eq lowerMember
    have same := Degree.beq_iff.mp (uniform other number otherInRange inRange)
    rw [reached, missed] at same
    exact Nat.ne_of_lt below same
  · intro none number other inRange otherInRange
    apply Degree.beq_iff.mpr
    rcases Nat.lt_trichotomy (distribution.degreeAt number).units
      (distribution.degreeAt other).units with below | same | above
    · obtain ⟨level, proper⟩ :=
        isProperLevel_of_lt inRange otherInRange below
      exact absurd proper (none level)
    · exact same
    · obtain ⟨level, proper⟩ :=
        isProperLevel_of_lt otherInRange inRange above
      exact absurd proper (none level)

section

variable {distribution : Distribution} {level : Degree} {formula : Formula}
  (proper : distribution.IsProperLevel level)
  (described : distribution.Describes level formula)

include proper described

/-- The description of a proper level is true in some world and false in
another, so it is no constant and neither is its opposite. -/
theorem Describes.exists_truths :
    (∃ world, (formula.truth world).isOne = true) ∧
      ∃ world, (formula.truth world).isZero = true := by
  obtain ⟨member, lower, lowerMember, below⟩ := proper
  obtain ⟨number, inRange, reached⟩ := exists_degreeAt_eq member
  obtain ⟨other, otherInRange, missed⟩ := exists_degreeAt_eq lowerMember
  constructor
  · exact ⟨_, described.holds number inRange (Nat.le_of_eq (by rw [reached]))⟩
  · refine ⟨_, described.fails other otherInRange ?_⟩
    rw [missed]
    exact Nat.not_le_of_lt below

theorem Describes.constant?_eq_none : formula.constant? = none := by
  obtain ⟨⟨world, holds⟩, other, fails⟩ := described.exists_truths proper
  cases known : formula.constant? with
  | none => rfl
  | some degree =>
      rw [Formula.truth_of_constant? known] at holds fails
      rw [Degree.isZero_eq_false_of_isOne holds] at fails
      cases fails

theorem Describes.constant?_negated_eq_none :
    formula.negated.constant? = none := by
  obtain ⟨⟨world, holds⟩, other, fails⟩ := described.exists_truths proper
  cases formula with
  | atom symbol => rfl
  | binary connective left right => rfl
  | neg operand =>
      cases known : operand.constant? with
      | none => exact known
      | some degree =>
          rw [Formula.truth, Formula.truth_of_constant? known] at holds fails
          rw [Degree.isZero_eq_false_of_isOne holds] at fails
          cases fails

end

/-- A world of the vocabulary decides the description. -/
theorem Describes.truth_isCrisp {distribution : Distribution} {level : Degree}
    {formula : Formula} (described : distribution.Describes level formula)
    {number : Nat} (inRange : number < World.count distribution.atoms) :
    (formula.truth
      (World.numbered distribution.atoms (number : Nat))).IsCrisp := by
  by_cases reached : level ≤ distribution.degreeAt number
  · exact .inr (described.holds number inRange reached)
  · exact .inl (described.fails number inRange reached)

end Distribution

namespace FactBase

open Possibilistic.Distribution

/-- A level that fewer worlds reach is at most as possible. -/
theorem value_possibility_antitone {base : FactBase}
    {distribution : Distribution} {low high : Degree}
    {formula other : Formula}
    (proper : distribution.IsProperLevel low)
    (described : distribution.Describes low formula)
    (otherProper : distribution.IsProperLevel high)
    (otherDescribed : distribution.Describes high other)
    (ordered : low ≤ high) :
    (base.possibility other).value ≤ (base.possibility formula).value := by
  have formulaOver : formula.negated.mentions ⊆ distribution.atoms := by
    rw [Formula.mentions_negated]
    exact described.covered
  have otherOver : other.negated.mentions ⊆ distribution.atoms := by
    rw [Formula.mentions_negated]
    exact otherDescribed.covered
  rw [value_possibility (described.constant?_eq_none proper),
    value_possibility (otherDescribed.constant?_eq_none otherProper)]
  apply Degree.complement_antitone
  apply @value_necessity_mono base _ _
    (base.facts.mentions ++ distribution.atoms)
  · exact List.subset_append_left _ _
  · exact List.subset_append_of_subset_right _ formulaOver
  · exact List.subset_append_of_subset_right _ otherOver
  · exact described.constant?_negated_eq_none proper
  · exact otherDescribed.constant?_negated_eq_none otherProper
  · intro world inAll denied
    obtain ⟨number, inRange, sameTruth⟩ := World.exists_numbered_truth_eq
      (List.subset_append_right base.facts.mentions distribution.atoms) inAll
    rw [sameTruth _ formulaOver,
      Formula.truth_negated_isOne_iff (described.truth_isCrisp inRange)]
      at denied
    rw [sameTruth _ otherOver,
      Formula.truth_negated_isOne_iff (otherDescribed.truth_isCrisp inRange)]
    apply otherDescribed.fails number inRange
    intro reached
    have holds := described.holds number inRange (Nat.le_trans ordered reached)
    rw [Degree.isZero_eq_false_of_isOne holds] at denied
    cases denied

end FactBase

end Possibilistic
