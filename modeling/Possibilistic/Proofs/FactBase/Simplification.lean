import Possibilistic.Proofs.FactBase.Classical
import Possibilistic.Proofs.FactSet.Telling

/-!
# Simplification

A redundant fact is dropped when the others make it as necessary as its own
degree.  Then the others exclude the worlds where it is false at least as far,
so simplification leaves the exclusion of every world as it is.
-/

namespace Possibilistic

namespace FactBase

variable {base others : FactBase} {atoms : List Atom}

/-- What was dropped is one of the listed facts, and the others make it as
necessary as its degree. -/
theorem exists_of_value_dropRedundant? {items : List (Formula × Degree)}
    (dropped : (base.dropRedundant? items).value = some others) :
    ∃ fact degree, (fact, degree) ∈ items ∧
      others = base.withFacts (base.facts.untell fact) ∧
        degree ≤ (others.necessity fact).value := by
  induction items with
  | nil => cases dropped
  | cons item rest ih =>
      obtain ⟨fact, degree⟩ := item
      simp only [dropRedundant?, Inquiry.value_bind] at dropped
      split at dropped
      · rename_i redundant
        cases dropped
        exact ⟨fact, degree, List.mem_cons_self, rfl, redundant⟩
      · obtain ⟨later, laterDegree, member, rest⟩ := ih dropped
        exact ⟨later, laterDegree, List.mem_cons_of_mem _ member, rest⟩

/-- Dropping a redundant fact keeps the facts classical and the exclusion of
every world. -/
theorem dropRedundant?_preserves (factsOver : base.facts.IsClassicalOver atoms)
    (dropped : (base.dropRedundant? base.items).value = some others) :
    others.facts.IsClassicalOver atoms ∧
      ∀ world ∈ World.all atoms,
        others.facts.exclusion world = base.facts.exclusion world := by
  obtain ⟨fact, degree, present, equality, redundant⟩ :=
    exists_of_value_dropRedundant? dropped
  have factOver := factsOver (fact, degree) present
  have factsEq : others.facts = base.facts.untell fact := by
    rw [equality]
    rfl
  have othersOver : others.facts.IsClassicalOver atoms := by
    rw [factsEq]
    exact factsOver.untell fact
  refine ⟨othersOver, ?_⟩
  intro world inAll
  obtain ⟨classical, covered⟩ := FactSet.isClassicalOver_iff.mp othersOver
  have excluded : (fact.truth world).isZero = true →
      degree ≤ others.facts.exclusion world := by
    intro fails
    exact Nat.le_trans redundant
      (necessity_le_exclusion classical factOver.1 covered factOver.2 inAll
        fails)
  apply Degree.ext_units
  · apply Degree.units_eq_of_le_iff
    intro level positive
    rw [@FactSet.le_exclusion_iff_membership base.facts world level positive]
    constructor
    · intro reached
      rw [factsEq] at reached
      obtain ⟨other, _, fails, before⟩ :=
        (FactSet.le_exclusion_untell_iff positive).mp reached
      exact ⟨other, fails, before⟩
    · intro ⟨other, fails, before⟩
      by_cases same : other = fact
      · -- The dropped fact itself: what remains still makes it necessary.
        subst same
        rw [FuzzySet.membership_eq_of_mem_items present] at before
        exact Nat.le_trans before (excluded fails)
      · rw [factsEq]
        exact (FactSet.le_exclusion_untell_iff positive).mpr
          ⟨other, same, fails, before⟩
  · rw [FactSet.negativeZero_exclusion, FactSet.negativeZero_exclusion]

theorem simplifiedWithin_preserves (rounds : Nat)
    (factsOver : base.facts.IsClassicalOver atoms) :
    (simplifiedWithin rounds base).value.facts.IsClassicalOver atoms ∧
      ∀ world ∈ World.all atoms,
        (simplifiedWithin rounds base).value.facts.exclusion world =
          base.facts.exclusion world := by
  induction rounds generalizing base with
  | zero => exact ⟨factsOver, fun _ _ => rfl⟩
  | succ rounds ih =>
      simp only [simplifiedWithin, Inquiry.value_bind]
      cases found : (base.dropRedundant? base.items).value with
      | none => exact ⟨factsOver, fun _ _ => rfl⟩
      | some others =>
          obtain ⟨othersOver, dropped⟩ := dropRedundant?_preserves factsOver found
          obtain ⟨finalOver, final⟩ := ih othersOver
          refine ⟨finalOver, ?_⟩
          intro world inAll
          exact (final world inAll).trans (dropped world inAll)

/-- Simplification keeps the facts classical and the exclusion of every
world. -/
theorem simplified_preserves (factsOver : base.facts.IsClassicalOver atoms) :
    base.simplified.value.facts.IsClassicalOver atoms ∧
      ∀ world ∈ World.all atoms,
        base.simplified.value.facts.exclusion world =
          base.facts.exclusion world :=
  simplifiedWithin_preserves _ factsOver

end FactBase

end Possibilistic
