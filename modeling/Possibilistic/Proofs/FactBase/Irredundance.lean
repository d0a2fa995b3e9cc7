import Possibilistic.Proofs.FactBase.Possibility
import Possibilistic.Proofs.FactBase.Simplification

/-!
# Irredundance

A base is irredundant when no fact is as necessary under the others as its own
degree says.  Simplification drops facts until this holds, which takes at most
as many rounds as there are facts.  What is left keeps its order and, over
classical facts, the truth of every world and every necessity.
-/

namespace Possibilistic

namespace FactBase

/-- The base without one of its facts. -/
def without (base : FactBase) (fact : Formula) : FactBase :=
  base.withFacts (base.facts.untell fact)

/-- The others make no fact as necessary as its own degree. -/
def Irredundant (base : FactBase) : Prop :=
  ∀ item ∈ base.items,
    ((base.without item.1).necessity item.1).value < item.2

variable {base others : FactBase}

/-- The search for a redundant fact fails when none of those listed is
redundant. -/
theorem value_dropRedundant?_eq_none_iff {items : List (Formula × Degree)} :
    (base.dropRedundant? items).value = none ↔
      ∀ item ∈ items,
        ((base.without item.1).necessity item.1).value < item.2 := by
  induction items with
  | nil => simp [dropRedundant?]
  | cons item rest ih =>
      obtain ⟨fact, degree⟩ := item
      simp only [dropRedundant?, Inquiry.value_bind, List.forall_mem_cons]
      split
      · rename_i redundant
        constructor
        · intro found
          cases found
        · rintro ⟨below, _⟩
          exact absurd below (Nat.not_lt.mpr redundant)
      · rename_i needed
        rw [ih]
        exact (and_iff_right (Nat.lt_of_not_le needed)).symm

theorem irredundant_iff :
    base.Irredundant ↔ (base.dropRedundant? base.items).value = none :=
  value_dropRedundant?_eq_none_iff.symm

/-- A round drops one fact and leaves the others in their order. -/
theorem items_of_value_dropRedundant?
    (dropped : (base.dropRedundant? base.items).value = some others) :
    List.Sublist others.items base.items ∧
      others.items.length < base.items.length := by
  obtain ⟨fact, degree, present, equality, _⟩ :=
    exists_of_value_dropRedundant? dropped
  have kept : others.items =
      base.items.filter fun entry => entry.1 ≠ fact := by
    rw [equality]
    rfl
  rw [kept]
  refine ⟨List.filter_sublist, ?_⟩
  apply List.length_filter_lt_length_iff_exists.mpr
  exact ⟨(fact, degree), present, by simp⟩

/-- Nothing is dropped from an irredundant base. -/
theorem Irredundant.value_simplifiedWithin (irredundant : base.Irredundant)
    (rounds : Nat) : (simplifiedWithin rounds base).value = base := by
  cases rounds with
  | zero => rfl
  | succ rounds =>
      simp only [simplifiedWithin, Inquiry.value_bind,
        irredundant_iff.mp irredundant]
      rfl

/-- With a round for every fact, simplification ends because nothing is
redundant any more; further rounds change nothing. -/
theorem irredundant_simplifiedWithin {rounds others : Nat}
    (enough : base.items.length ≤ rounds)
    (alsoEnough : base.items.length ≤ others) :
    (simplifiedWithin rounds base).value.Irredundant ∧
      (simplifiedWithin rounds base).value =
        (simplifiedWithin others base).value := by
  induction rounds generalizing others base with
  | zero =>
      have empty : base.items = [] :=
        List.length_eq_zero_iff.mp (Nat.le_zero.mp enough)
      have irredundant : base.Irredundant := by
        intro item present
        rw [empty] at present
        cases present
      exact ⟨irredundant, (irredundant.value_simplifiedWithin others).symm⟩
  | succ rounds ih =>
      cases found : (base.dropRedundant? base.items).value with
      | none =>
          have irredundant := irredundant_iff.mpr found
          rw [irredundant.value_simplifiedWithin,
            irredundant.value_simplifiedWithin]
          exact ⟨irredundant, rfl⟩
      | some reduced =>
          have shorter := (items_of_value_dropRedundant? found).2
          cases others with
          | zero => omega
          | succ others =>
              simp only [simplifiedWithin, Inquiry.value_bind, found]
              exact ih (by omega) (by omega)

/-- What is left after any number of rounds keeps its degrees and its order. -/
theorem items_simplifiedWithin_sublist (rounds : Nat) :
    List.Sublist (simplifiedWithin rounds base).value.items base.items := by
  induction rounds generalizing base with
  | zero => exact List.Sublist.refl _
  | succ rounds ih =>
      simp only [simplifiedWithin, Inquiry.value_bind]
      cases found : (base.dropRedundant? base.items).value with
      | none => exact List.Sublist.refl _
      | some others =>
          exact ih.trans (items_of_value_dropRedundant? found).1

section

variable {formula : Formula} {atoms : List Atom}
  (factsOver : base.facts.IsClassicalOver atoms)

include factsOver

theorem truth_simplified {world : Interpretation}
    (inAll : world ∈ World.all atoms) :
    base.simplified.value.facts.truth world = base.facts.truth world := by
  obtain ⟨simplifiedOver, sameExclusion⟩ := simplified_preserves factsOver
  obtain ⟨classical, covered⟩ := FactSet.isClassicalOver_iff.mp factsOver
  obtain ⟨simplifiedClassical, simplifiedCovered⟩ :=
    FactSet.isClassicalOver_iff.mp simplifiedOver
  rw [FactSet.truth_eq_complement_exclusion inAll simplifiedClassical
      simplifiedCovered,
    FactSet.truth_eq_complement_exclusion inAll classical covered,
    sameExclusion world inAll]

theorem value_necessity_simplified (formulaClassical : formula.isClassical = true)
    (formulaCovered : formula.mentions ⊆ atoms) :
    (base.simplified.value.necessity formula).value =
      (base.necessity formula).value := by
  cases known : formula.constant? with
  | some degree =>
      rw [value_necessity_of_constant known, value_necessity_of_constant known]
  | none =>
      obtain ⟨simplifiedOver, sameExclusion⟩ := simplified_preserves factsOver
      obtain ⟨classical, covered⟩ := FactSet.isClassicalOver_iff.mp factsOver
      obtain ⟨simplifiedClassical, simplifiedCovered⟩ :=
        FactSet.isClassicalOver_iff.mp simplifiedOver
      rw [value_necessity_eq_leastExclusion simplifiedClassical
          formulaClassical known simplifiedCovered formulaCovered,
        value_necessity_eq_leastExclusion classical formulaClassical known
          covered formulaCovered]
      simp only [FactSet.leastExclusion]
      congr 1
      apply List.map_congr_left
      intro world kept
      exact sameExclusion world (List.mem_filter.mp kept).1

end

/-- Simplification of classical facts ends by itself in an irredundant base of
facts that keep their degrees and their order.  It leaves the truth of every
world and every necessity alone, and a second simplification changes nothing. -/
theorem simplified_keeps_meaning_irredundantly
    (classical : base.facts.isClassical = true) :
    (∀ rounds, base.items.length ≤ rounds →
      (simplifiedWithin rounds base).value = base.simplified.value) ∧
    List.Sublist base.simplified.value.items base.items ∧
    (∀ atoms : List Atom, base.facts.mentions ⊆ atoms →
      ∀ world ∈ World.all atoms,
        base.simplified.value.facts.truth world = base.facts.truth world) ∧
    (∀ formula : Formula, formula.isClassical = true →
      (base.simplified.value.necessity formula).value =
        (base.necessity formula).value) ∧
    base.simplified.value.Irredundant ∧
    base.simplified.value.simplified.value = base.simplified.value := by
  have factsOver : ∀ atoms : List Atom, base.facts.mentions ⊆ atoms →
      base.facts.IsClassicalOver atoms := fun _ covered =>
    FactSet.isClassicalOver_iff.mpr ⟨classical, covered⟩
  have bySize : base.items.length ≤ base.facts.size := Nat.le_refl _
  have irredundant : base.simplified.value.Irredundant :=
    (irredundant_simplifiedWithin bySize bySize).1
  refine ⟨?_, ?_, ?_, ?_, irredundant, ?_⟩
  · intro rounds enough
    exact (irredundant_simplifiedWithin enough bySize).2
  · exact items_simplifiedWithin_sublist base.facts.size
  · intro atoms covered world inAll
    exact truth_simplified (factsOver atoms covered) inAll
  · intro formula formulaClassical
    apply value_necessity_simplified
      (factsOver (base.facts.mentions ++ formula.mentions)
        (List.subset_append_left _ _)) formulaClassical
    exact List.subset_append_right _ _
  · exact irredundant.value_simplifiedWithin _

/-- Two ways to say that it rains and is cold make each other redundant.  The
first is dropped, and so is what follows from the second to a lower degree. -/
theorem simplified_keeps_meaning_irredundantly_storm :
    let rain : Formula := .atom ⟨"rain"⟩
    let cold : Formula := .atom ⟨"cold"⟩
    let base : FactBase :=
      { facts := ((FactSet.empty.tell (rain.conj cold) Degree.one).tell
          (cold.conj rain) Degree.one).tell (rain.disj cold) Degree.half
        counted := true
        warnAbove := 20 }
    base.facts.isClassical = true ∧
      base.simplified.value.items = [(cold.conj rain, Degree.one)] ∧
      base.simplified.value.Irredundant ∧
      (base.simplified.value.necessity rain).value =
        (base.necessity rain).value := by
  intro rain cold base
  obtain ⟨_, _, _, sameNecessity, irredundant, _⟩ :=
    @simplified_keeps_meaning_irredundantly base (by decide +kernel)
  refine ⟨by decide +kernel, by decide +kernel, irredundant, ?_⟩
  exact sameNecessity rain (by decide +kernel)

end FactBase

end Possibilistic
