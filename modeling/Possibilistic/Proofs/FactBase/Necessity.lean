import Possibilistic.Proofs.FactBase.Entailment

/-!
# Levels of necessity

The ascending scan over the levels and the last test of the whole base compute
the greatest level whose cut entails the formula: a positive level is reached
by the necessity exactly when the facts of that level sustain the formula.
-/

namespace Possibilistic

namespace FactBase

@[simp] theorem value_models (base : FactBase) (formula : Formula) :
    (base.models formula).value = base.entailment formula := by
  rw [models]
  cases base.counted <;> rfl

theorem value_highestCut_cons (base : FactBase) (formula : Formula)
    (level : Degree) (higher : List Degree) (reached : Degree) :
    (base.highestCut formula (level :: higher) reached).value =
      if ((base.cut level).entailment formula).isOne then
        (base.highestCut formula higher level).value
      else reached := by
  simp only [highestCut, Inquiry.value_bind, value_models]
  split <;> rfl

theorem value_necessity_of_constant {base : FactBase} {formula : Formula}
    {degree : Degree} (constant : formula.constant? = some degree) :
    (base.necessity formula).value = degree := by
  simp [necessity, constant]

theorem value_necessity {base : FactBase} {formula : Formula}
    (nonconstant : formula.constant? = none) :
    (base.necessity formula).value =
      if (base.entailment formula).isOne then Degree.one
      else (base.highestCut formula base.levels Degree.zero).value := by
  simp only [necessity, nonconstant, Inquiry.value_bind, value_models]
  split <;> rfl

theorem negativeZero_highestCut (base : FactBase) (formula : Formula)
    {levels : List Degree} {reached : Degree}
    (levelsPositive : ∀ level ∈ levels, level.negativeZero = false)
    (reachedPositive : reached.negativeZero = false) :
    (base.highestCut formula levels reached).value.negativeZero = false := by
  induction levels generalizing reached with
  | nil => exact reachedPositive
  | cons next higher ih =>
      rw [value_highestCut_cons]
      split
      · exact ih (fun level member =>
          levelsPositive level (List.mem_cons_of_mem _ member))
            (levelsPositive next List.mem_cons_self)
      · exact reachedPositive

/-- A necessity of zero has the positive sign, unless a constant says
otherwise. -/
theorem negativeZero_necessity {base : FactBase} {formula : Formula}
    (nonconstant : formula.constant? = none) :
    (base.necessity formula).value.negativeZero = false := by
  rw [value_necessity nonconstant]
  split
  · rfl
  · apply negativeZero_highestCut
    · intro level member
      obtain ⟨fact, present⟩ := FuzzySet.mem_items_of_mem_levels member
      exact Degree.negativeZero_of_pos (FuzzySet.pos_of_mem_items present)
    · rfl

/-- A formula that some level sustains is sustained by the next level of the
base above it, or by certain facts if there is none. -/
theorem sustains_level_or_one {base : FactBase} {formula : Formula}
    {atoms : List Atom} {level : Degree}
    (sustained : base.facts.Sustains atoms formula level) :
    base.facts.Sustains atoms formula Degree.one ∨
      ∃ higher ∈ base.levels, level ≤ higher ∧
        base.facts.Sustains atoms formula higher := by
  let higher := Degree.minimum (base.levels.filter fun other => level ≤ other)
  have lowest : ∀ item ∈ base.facts.items, level ≤ item.2 →
      higher ≤ item.2 := by
    intro item member reached
    obtain ⟨known, inLevels, units⟩ := Degree.exists_mem_levels
      (List.mem_map_of_mem member : item.2 ∈ base.facts.members.values)
    have kept : known ∈ base.levels.filter fun other => level ≤ other := by
      apply List.mem_filter.mpr
      refine ⟨inLevels, ?_⟩
      simpa [Degree.le_iff, units] using reached
    have bounded : higher ≤ known :=
      Degree.le_minimum_iff.mp (Nat.le_refl _) known kept
    rw [Degree.le_iff, units] at bounded
    exact bounded
  have raised : base.facts.Sustains atoms formula higher := by
    intro world inAll
    rcases sustained world inAll with holds | ⟨item, member, reached, fails⟩
    · exact .inl holds
    · exact .inr ⟨item, member, lowest item member reached, fails⟩
  rcases Degree.minimum_mem
    (base.levels.filter fun other => level ≤ other) with none | member
  · left
    rw [← none]
    exact raised
  · right
    obtain ⟨inLevels, reached⟩ := List.mem_filter.mp member
    exact ⟨higher, inLevels, by simpa using reached, raised⟩

section

variable {base : FactBase} {formula : Formula} {atoms : List Atom}
  (factsCovered : base.facts.mentions ⊆ atoms)
  (formulaCovered : formula.mentions ⊆ atoms)

include factsCovered formulaCovered

/-- What the scan has reached is a level that it started from or one whose cut
entails the formula.  The scan may stop at the first failure, since a higher
cut that succeeds would make every lower one succeed. -/
theorem le_highestCut_iff {level reached : Degree} {levels : List Degree}
    (ascending : levels.Pairwise (· < ·))
    (above : ∀ higher ∈ levels, reached ≤ higher) :
    level ≤ (base.highestCut formula levels reached).value ↔
      level ≤ reached ∨ ∃ higher ∈ levels, level ≤ higher ∧
        base.facts.Sustains atoms formula higher := by
  induction levels generalizing reached with
  | nil => simp [highestCut]
  | cons next higher ih =>
      obtain ⟨nextBelow, higherAscending⟩ := List.pairwise_cons.mp ascending
      have entails := entailment_cut_isOne_iff factsCovered formulaCovered next
      have reached_le : reached ≤ next := above next List.mem_cons_self
      rw [value_highestCut_cons]
      split
      · rename_i success
        have sustained := entails.mp success
        have nextAbove : ∀ other ∈ higher, next ≤ other :=
          fun other member => Nat.le_of_lt (nextBelow other member)
        rw [ih higherAscending nextAbove]
        constructor
        · rintro (low | ⟨other, member, low, otherSustained⟩)
          · exact .inr ⟨next, List.mem_cons_self, low, sustained⟩
          · exact .inr
              ⟨other, List.mem_cons_of_mem _ member, low, otherSustained⟩
        · rintro (low | ⟨other, member, low, otherSustained⟩)
          · exact .inl (Nat.le_trans low reached_le)
          · rcases List.mem_cons.mp member with equality | inHigher
            · exact .inl (equality ▸ low)
            · exact .inr ⟨other, inHigher, low, otherSustained⟩
      · rename_i failure
        constructor
        · exact .inl
        · rintro (low | ⟨other, member, _, otherSustained⟩)
          · exact low
          · have next_le : next ≤ other := by
              rcases List.mem_cons.mp member with equality | inHigher
              · rw [equality]
                exact Nat.le_refl _
              · exact Nat.le_of_lt (nextBelow other inHigher)
            exact absurd (entails.mpr (otherSustained.antitone next_le)) failure

/-- A positive level is reached by the necessity of a formula exactly when the
facts of that level sustain the formula. -/
theorem le_necessity_iff (nonconstant : formula.constant? = none)
    {level : Degree} (positive : 0 < level.units) :
    level ≤ (base.necessity formula).value ↔
      base.facts.Sustains atoms formula level := by
  have certain := entailment_isOne_iff factsCovered formulaCovered
  have below_one : level ≤ Degree.one := level.atMostOne
  rw [value_necessity nonconstant]
  split
  · rename_i success
    constructor
    · intro _
      exact (certain.mp success).antitone below_one
    · intro _
      exact below_one
  · rename_i failure
    have scan : level ≤
        (base.highestCut formula base.levels Degree.zero).value ↔
          level ≤ Degree.zero ∨ ∃ higher ∈ base.levels, level ≤ higher ∧
            base.facts.Sustains atoms formula higher :=
      le_highestCut_iff factsCovered formulaCovered
        (Degree.pairwise_levels _) (fun _ _ => Nat.zero_le _)
    rw [scan]
    constructor
    · rintro (low | ⟨higher, _, low, sustained⟩)
      · rw [Degree.le_iff, Degree.units_zero] at low
        omega
      · exact sustained.antitone low
    · intro sustained
      rcases sustains_level_or_one sustained with full | reached
      · exact absurd (certain.mpr full) failure
      · exact .inr reached

end

end FactBase

end Possibilistic
