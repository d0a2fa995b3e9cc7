import Possibilistic.Proofs.FactBase.Classical
import Possibilistic.Proofs.FactSet.Telling

/-!
# Telling what is not entailed

A fact may be told only when the base does not make it as necessary yet.  Over
classical facts this test is harmless: the worlds where the fact is false are
excluded to its degree either way, and overwriting its earlier membership loses
nothing.
-/

namespace Possibilistic

namespace FactBase

/-- The base that was told a fact, unless it makes the fact as necessary. -/
def tellUnlessEntailed (base : FactBase) (fact : Formula) (degree : Degree) :
    FactBase :=
  if degree ≤ (base.necessity fact).value then base
  else base.withFacts (base.facts.tell fact degree)

variable {base : FactBase} {fact : Formula} {atoms : List Atom}

theorem forall_mem_tellUnlessEntailed (holds : Formula → Prop)
    (before : ∀ item ∈ base.facts.items, holds item.1) (told : holds fact)
    (degree : Degree) :
    ∀ item ∈ (base.tellUnlessEntailed fact degree).facts.items,
      holds item.1 := by
  simp only [tellUnlessEntailed]
  split
  · exact before
  · exact FactSet.forall_mem_tell holds before told degree

theorem isClassicalOver_tellUnlessEntailed
    (factsOver : base.facts.IsClassicalOver atoms)
    (classical : fact.isClassical = true) (covered : fact.mentions ⊆ atoms)
    (degree : Degree) :
    (base.tellUnlessEntailed fact degree).facts.IsClassicalOver atoms :=
  forall_mem_tellUnlessEntailed (fun known => known.isClassical = true ∧
    known.mentions ⊆ atoms) factsOver ⟨classical, covered⟩ degree

/-- The facts exclude what they excluded, and the worlds where the fact is
false at its degree. -/
theorem le_exclusion_tellUnlessEntailed_iff {world : Interpretation}
    (factsOver : base.facts.IsClassicalOver atoms)
    (inAll : world ∈ World.all atoms)
    (classical : fact.isClassical = true) (covered : fact.mentions ⊆ atoms)
    (nonconstant : fact.constant? = none) {degree level : Degree}
    (positive : 0 < level.units) :
    level ≤ (base.tellUnlessEntailed fact degree).facts.exclusion world ↔
      level ≤ base.facts.exclusion world ∨
        ((fact.truth world).isZero = true ∧ level ≤ degree) := by
  obtain ⟨factsClassical, factsCovered⟩ := FactSet.isClassicalOver_iff.mp factsOver
  simp only [tellUnlessEntailed]
  split
  · rename_i entailed
    constructor
    · exact .inl
    · intro reached
      rcases reached with before | ⟨fails, below⟩
      · exact before
      · have excluded := necessity_le_exclusion factsClassical classical
          factsCovered covered inAll fails
        exact Nat.le_trans below (Nat.le_trans entailed excluded)
  · rename_i notEntailed
    have known : base.facts.membership fact ≤ degree :=
      Nat.le_trans
        (membership_le_necessity classical nonconstant)
        (Nat.le_of_lt (Nat.lt_of_not_le notEntailed))
    change level ≤ (base.facts.tell fact degree).exclusion world ↔ _
    rw [FactSet.le_exclusion_tell_iff positive,
      @FactSet.le_exclusion_iff_membership base.facts world level positive]
    constructor
    · intro reached
      rcases reached with told | ⟨other, _, fails, before⟩
      · exact .inr told
      · exact .inl ⟨other, fails, before⟩
    · intro reached
      rcases reached with ⟨other, fails, before⟩ | told
      · by_cases same : other = fact
        · -- The membership that is overwritten was no greater.
          subst same
          exact .inl ⟨fails, Nat.le_trans before known⟩
        · exact .inr ⟨other, same, fails, before⟩
      · exact .inl told

end FactBase

end Possibilistic
