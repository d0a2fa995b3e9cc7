import Possibilistic.Proofs.FactBase.Assertion
import Possibilistic.Proofs.FactBase.Simplification

/-!
# Persistence

Telling what is not entailed never lowers the membership of a classical fact,
and simplification drops a fact only when the others sustain it as far.  So
neither gives up a formula that classical facts sustain, whatever else the base
holds by then.  Only constants are left out, which are as necessary as they are
true and sustain nothing.
-/

namespace Possibilistic

namespace FactSet

variable {facts others : FactSet} {atoms : List Atom}

/-- No fact is a constant, and all mention only atoms of the vocabulary. -/
def IsNonconstantOver (facts : FactSet) (atoms : List Atom) : Prop :=
  ∀ item ∈ facts.items,
    item.1.constant? = none ∧ item.1.mentions ⊆ atoms

theorem IsNonconstantOver.mentions_subset
    (factsOver : facts.IsNonconstantOver atoms) : facts.mentions ⊆ atoms := by
  intro atom mentioned
  obtain ⟨item, present, inItem⟩ := mem_mentions.mp mentioned
  exact (factsOver item present).2 inItem

theorem IsNonconstantOver.untell (factsOver : facts.IsNonconstantOver atoms)
    (fact : Formula) : (facts.untell fact).IsNonconstantOver atoms :=
  forall_mem_untell (fun known => known.constant? = none ∧
    known.mentions ⊆ atoms) factsOver fact

/-- What some facts sustain is sustained at another level where each of them is
a member to that level. -/
theorem Sustains.transfer {formula : Formula} {level otherLevel : Degree}
    (sustained : facts.Sustains atoms formula level)
    (positive : 0 < otherLevel.units)
    (members : ∀ item ∈ facts.items, level ≤ item.2 →
      otherLevel ≤ others.membership item.1) :
    others.Sustains atoms formula otherLevel := by
  intro world inAll
  rcases sustained world inAll with holds | ⟨item, present, reached, fails⟩
  · exact .inl holds
  · right
    obtain ⟨degree, inOthers, above⟩ :=
      (FuzzySet.le_membership_iff positive).mp (members item present reached)
    exact ⟨(item.1, degree), inOthers, above, fails⟩

end FactSet

namespace FactBase

variable {base others : FactBase} {atoms : List Atom}

/-- A classical fact that is told again had been told at a lower degree. -/
theorem membership_le_tellUnlessEntailed {known : Formula}
    (classical : known.isClassical = true)
    (nonconstant : known.constant? = none) (fact : Formula) (degree : Degree) :
    base.facts.membership known ≤
      (base.tellUnlessEntailed fact degree).facts.membership known := by
  simp only [tellUnlessEntailed]
  split
  · exact Nat.le_refl _
  · rename_i notEntailed
    apply FuzzySet.le_membership_assign_iff.mpr
    by_cases same : known = fact
    · have necessary : base.facts.membership known ≤
          (base.necessity known).value :=
        membership_le_necessity classical nonconstant
      rw [← same] at notEntailed
      exact .inl ⟨same, Nat.le_trans necessary
        (Nat.le_of_lt (Nat.lt_of_not_le notEntailed))⟩
    · exact .inr ⟨same, Nat.le_refl _⟩

theorem isNonconstantOver_tellUnlessEntailed
    (factsOver : base.facts.IsNonconstantOver atoms) {fact : Formula}
    (nonconstant : fact.constant? = none) (covered : fact.mentions ⊆ atoms)
    (degree : Degree) :
    (base.tellUnlessEntailed fact degree).facts.IsNonconstantOver atoms :=
  forall_mem_tellUnlessEntailed (fun known => known.constant? = none ∧
    known.mentions ⊆ atoms) factsOver ⟨nonconstant, covered⟩ degree

/-- In a world where the dropped fact denies a formula, what made the fact
redundant denies the formula as well. -/
theorem dropRedundant?_sustains
    (factsOver : base.facts.IsNonconstantOver atoms)
    (dropped : (base.dropRedundant? base.items).value = some others) :
    others.facts.IsNonconstantOver atoms ∧
      ∀ (formula : Formula) (level : Degree),
        base.facts.Sustains atoms formula level →
          others.facts.Sustains atoms formula level := by
  obtain ⟨fact, degree, present, equality, redundant⟩ :=
    exists_of_value_dropRedundant? dropped
  obtain ⟨nonconstant, covered⟩ := factsOver (fact, degree) present
  have factsEq : others.facts = base.facts.untell fact := by
    rw [equality]
    rfl
  have othersOver : others.facts.IsNonconstantOver atoms := by
    rw [factsEq]
    exact factsOver.untell fact
  have factSustained : others.facts.Sustains atoms fact degree :=
    (le_necessity_iff othersOver.mentions_subset covered nonconstant
      (FuzzySet.pos_of_mem_items present)).mp redundant
  refine ⟨othersOver, ?_⟩
  intro formula level sustained world inAll
  rcases sustained world inAll with holds | ⟨item, inBase, reached, fails⟩
  · exact .inl holds
  · right
    by_cases same : item.1 = fact
    · -- The world denies the dropped fact, so one of the others denies it.
      have degree_eq : item.2 = degree := by
        rw [← FuzzySet.membership_eq_of_mem_items inBase, same]
        exact FuzzySet.membership_eq_of_mem_items present
      rw [degree_eq] at reached
      rw [same] at fails
      rcases factSustained world inAll with
        holds | ⟨other, inOthers, above, otherFails⟩
      · rw [Degree.isNegligible_eq_false_of_isOne holds] at fails
        cases fails
      · exact ⟨other, inOthers, Nat.le_trans reached above, otherFails⟩
    · refine ⟨item, ?_, reached, fails⟩
      rw [factsEq]
      exact List.mem_filter.mpr ⟨inBase, by simpa using same⟩

/-- Simplification gives up nothing that the facts sustain. -/
theorem simplifiedWithin_sustains (rounds : Nat)
    (factsOver : base.facts.IsNonconstantOver atoms) :
    (simplifiedWithin rounds base).value.facts.IsNonconstantOver atoms ∧
      ∀ (formula : Formula) (level : Degree),
        base.facts.Sustains atoms formula level →
          (simplifiedWithin rounds base).value.facts.Sustains atoms formula
            level := by
  induction rounds generalizing base with
  | zero => exact ⟨factsOver, fun _ _ sustained => sustained⟩
  | succ rounds ih =>
      simp only [simplifiedWithin, Inquiry.value_bind]
      cases found : (base.dropRedundant? base.items).value with
      | none => exact ⟨factsOver, fun _ _ sustained => sustained⟩
      | some others =>
          obtain ⟨othersOver, dropped⟩ := dropRedundant?_sustains factsOver found
          obtain ⟨finalOver, final⟩ := ih othersOver
          refine ⟨finalOver, ?_⟩
          intro formula level sustained
          exact final formula level (dropped formula level sustained)

end FactBase

end Possibilistic
