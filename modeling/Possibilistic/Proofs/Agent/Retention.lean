import Possibilistic.Proofs.Agent.Revision
import Possibilistic.Proofs.FactBase.Persistence
import Possibilistic.Proofs.Formula.Joining

/-!
# Revision without contradiction

Where nothing speaks against the evidence, every belief is kept and its
rescaled degree is the complement of its complement.  Only this rounding can
lower a necessity: what the beliefs sustained at some degree, the revised
beliefs sustain at the complement of its complement, which is the degree itself
from one half up and misses it by at most half the gap below one elsewhere.
-/

namespace Possibilistic

namespace Agent

/-- Against nothing, a degree is rescaled by taking its complement twice. -/
theorem units_rescaling_of_isZero {degree contradiction : Degree}
    (uncontradicted : contradiction.isZero = true)
    (positive : 0 < degree.units) :
    (rescaling degree contradiction).units =
      degree.complement.complement.units := by
  have vanishing := Degree.isZero_iff.mp uncontradicted
  have above : contradiction < degree := by
    rw [Degree.lt_iff, vanishing]
    exact positive
  have full : contradiction.complement.units = Binary64.unit :=
    Degree.isOne_iff.mp (Degree.complement_isOne_of_isZero uncontradicted)
  have quotient :
      Binary64.round (degree.complement.units * Binary64.unit)
        contradiction.complement.units = degree.complement.units := by
    rw [full]
    calc
      Binary64.round (degree.complement.units * Binary64.unit) Binary64.unit =
          Binary64.round degree.complement.units 1 := by
        apply Binary64.round_congr Binary64.unit_pos Nat.one_pos
        rw [Nat.mul_one]
      _ = degree.complement.units :=
        Binary64.round_self degree.complement.representable
  rw [rescaling, rescaled_eq_complement above, Degree.ofBinary64?_toBinary64]
  exact congrArg Degree.units (Degree.complement_congr quotient)

section

variable {previous revised : FactBase} {evidence : Formula}

theorem membership_le_addAlternatives {known : Formula}
    (classical : known.isClassical = true)
    (nonconstant : known.constant? = none) (items : List (Formula × Degree)) :
    revised.facts.membership known ≤
      (addAlternatives previous evidence items
        revised).value.facts.membership known := by
  induction items generalizing revised with
  | nil => exact Nat.le_refl _
  | cons item rest ih =>
      obtain ⟨fact, degree⟩ := item
      rw [value_addAlternatives_cons]
      apply Nat.le_trans _ ih
      exact FactBase.membership_le_tellUnlessEntailed classical nonconstant _ _

theorem isNonconstantOver_addAlternatives {atoms : List Atom}
    (covered : evidence.mentions ⊆ atoms) {items : List (Formula × Degree)}
    (itemsCovered : ∀ item ∈ items, item.1.mentions ⊆ atoms)
    (revisedOver : revised.facts.IsNonconstantOver atoms) :
    (addAlternatives previous evidence items
      revised).value.facts.IsNonconstantOver atoms := by
  induction items generalizing revised with
  | nil => exact revisedOver
  | cons item rest ih =>
      obtain ⟨fact, degree⟩ := item
      rw [value_addAlternatives_cons]
      apply ih
      · intro other member
        exact itemsCovered other (List.mem_cons_of_mem _ member)
      · apply FactBase.isNonconstantOver_tellUnlessEntailed revisedOver
        · rfl
        · exact List.append_subset.mpr
            ⟨itemsCovered (fact, degree) List.mem_cons_self, covered⟩

end

section

variable {agent : Agent} {evidence : Formula} {atoms : List Atom}
  (factsOver : agent.beliefs.IsClassicalOver atoms)
  (beliefsNonconstant : ∀ item ∈ agent.beliefs.items,
    item.1.constant? = none)
  (uncontradicted : (agent.believes evidence.negated).value.isZero = true)

include factsOver beliefsNonconstant

theorem isNonconstantOver_kept (contradiction : Degree) :
    (kept contradiction agent.beliefs).IsNonconstantOver atoms := by
  intro ⟨fact, degree⟩ present
  obtain ⟨known, inBeliefs⟩ := exists_mem_of_mem_items_kept present
  exact ⟨beliefsNonconstant (fact, known) inBeliefs,
    (factsOver (fact, known) inBeliefs).2⟩

include uncontradicted

/-- Every belief is kept, and neither the alternatives nor the evidence nor the
simplification give up what it sustains. -/
theorem revision_sustains (covered : evidence.mentions ⊆ atoms)
    (nonconstant : evidence.constant? = none) (trust : Degree)
    {formula : Formula} {level : Degree}
    (positive : 0 < level.complement.complement.units)
    (sustained : agent.beliefs.Sustains atoms formula level) :
    (agent.revision evidence trust).IsNonconstantOver atoms ∧
      (agent.revision evidence trust).Sustains atoms formula
        level.complement.complement := by
  let previous := agent.base agent.beliefs
  let contradiction := (agent.believes evidence.negated).value
  let start := previous.withFacts (kept contradiction agent.beliefs)
  let extended :=
    (addAlternatives previous evidence previous.items start).value
  let informed := extended.tellUnlessEntailed evidence trust
  have vanishing : contradiction.units = 0 :=
    Degree.isZero_iff.mp uncontradicted
  have informedOver : informed.facts.IsNonconstantOver atoms := by
    apply FactBase.isNonconstantOver_tellUnlessEntailed _ nonconstant covered
    apply isNonconstantOver_addAlternatives covered
    · exact fun item present => (factsOver item present).2
    · exact isNonconstantOver_kept factsOver beliefsNonconstant contradiction
  -- Only the beliefs are followed: the alternatives and the evidence may hold
  -- graded constants, and then telling them again can lower them.
  have members : ∀ item ∈ agent.beliefs.items, level ≤ item.2 →
      level.complement.complement ≤ informed.facts.membership item.1 := by
    intro ⟨fact, degree⟩ present reached
    have above : contradiction < degree := by
      rw [Degree.lt_iff, vanishing]
      exact FuzzySet.pos_of_mem_items present
    have rescaled_ge : level.complement.complement ≤
        rescaling degree contradiction := by
      have units : (rescaling degree contradiction).units =
          degree.complement.complement.units :=
        units_rescaling_of_isZero uncontradicted
          (FuzzySet.pos_of_mem_items present)
      rw [Degree.le_iff, units]
      exact Degree.complement_antitone (Degree.complement_antitone reached)
    have started : level.complement.complement ≤ start.facts.membership fact :=
      (le_membership_kept_iff positive).mpr
        ⟨degree, present, above, rescaled_ge⟩
    have classical := (factsOver (fact, degree) present).1
    have notConstant := beliefsNonconstant (fact, degree) present
    calc
      level.complement.complement.units ≤ (start.facts.membership fact).units :=
        started
      _ ≤ (extended.facts.membership fact).units :=
        membership_le_addAlternatives classical notConstant previous.items
      _ ≤ (informed.facts.membership fact).units :=
        FactBase.membership_le_tellUnlessEntailed classical notConstant
          evidence trust
  obtain ⟨revisedOver, simplified⟩ :=
    FactBase.simplifiedWithin_sustains informed.facts.size informedOver
  exact ⟨revisedOver,
    simplified formula _ (sustained.transfer positive members)⟩

theorem complement_complement_believes_le (covered : evidence.mentions ⊆ atoms)
    (nonconstant : evidence.constant? = none) (trust : Degree) {left : Agent}
    (beliefs_eq : left.beliefs = agent.revision evidence trust)
    {formula : Formula} (formulaCovered : formula.mentions ⊆ atoms)
    (formulaNonconstant : formula.constant? = none) :
    (agent.believes formula).value.complement.complement ≤
      (left.believes formula).value := by
  let before := (agent.believes formula).value
  apply Degree.le_of_pos
  intro positive
  have beforePositive : 0 < before.units :=
    Degree.pos_of_complement_complement_pos positive
  have sustained : agent.beliefs.Sustains atoms formula before :=
    (@FactBase.le_necessity_iff (agent.base agent.beliefs) formula atoms
      (FactSet.isClassicalOver_iff.mp factsOver).2 formulaCovered
      formulaNonconstant before beforePositive).mp (Nat.le_refl _)
  obtain ⟨revisedOver, revisedSustains⟩ := revision_sustains factsOver
    beliefsNonconstant uncontradicted covered nonconstant trust positive
    sustained
  rw [← beliefs_eq] at revisedOver revisedSustains
  exact (@FactBase.le_necessity_iff (left.base left.beliefs) formula atoms
    revisedOver.mentions_subset formulaCovered formulaNonconstant
    before.complement.complement positive).mpr revisedSustains

end

/-- A revision with evidence that nothing speaks against leaves every classical
formula as necessary as it was, up to the rounding of a complement taken
twice: nothing is lost from one half up, and elsewhere at most half the gap
below one. -/
theorem updateBeliefs_keeps_uncontradicted_necessity {agent : Agent}
    {fact trust : Datum} {evidence formula : Formula} {degree : Degree}
    (factAccepted : fact.asFact = .ok evidence)
    (trustAccepted : trust.asDegreeFor "trust" = .ok degree)
    (beliefsClassical : agent.beliefs.isClassical = true)
    (beliefsNonconstant : ∀ item ∈ agent.beliefs.items,
      item.1.constant? = none)
    (nonconstant : evidence.constant? = none)
    (uncontradicted : (agent.believes evidence.negated).value.isZero = true)
    (formulaClassical : formula.isClassical = true) :
    let left := ((updateBeliefs fact trust).runOn agent).value.2
    let before := (agent.believes formula).value
    let after := (left.believes formula).value
    before.complement.complement ≤ after ∧
      (Degree.half ≤ before → before ≤ after) ∧
      2 * before.units ≤ 2 * after.units + Degree.gapBelowOne := by
  intro left before after
  have kept_le : before.complement.complement ≤ after := by
    cases known : formula.constant? with
    | some value =>
        have before_eq : before = value :=
          FactBase.value_necessity_of_constant known
        have after_eq : after = value :=
          FactBase.value_necessity_of_constant known
        rw [before_eq, after_eq]
        apply Degree.IsCrisp.complement_complement_le
        exact (Formula.isClassical_iff_of_constant? known).mp formulaClassical
    | none =>
        let atoms :=
          agent.beliefs.mentions ++ (evidence.mentions ++ formula.mentions)
        have factsOver : agent.beliefs.IsClassicalOver atoms :=
          FactSet.isClassicalOver_iff.mpr
            ⟨beliefsClassical, List.subset_append_left _ _⟩
        have beliefs_eq : left.beliefs = agent.revision evidence degree :=
          congrArg beliefs
            (undeliberated_updateBeliefs factAccepted trustAccepted)
        apply complement_complement_believes_le factsOver beliefsNonconstant
          uncontradicted _ nonconstant degree beliefs_eq _ known
        · exact List.subset_append_of_subset_right _
            (List.subset_append_left _ _)
        · exact List.subset_append_of_subset_right _
            (List.subset_append_right _ _)
  refine ⟨kept_le, ?_, ?_⟩
  · intro lower
    exact Nat.le_trans (Degree.le_complement_complement_of_half_le lower)
      kept_le
  · have lost := Degree.units_le_complement_complement_add before
    rw [Degree.le_iff] at kept_le
    omega

/-- Someone who believes to some degree that it rains, and nothing else. -/
def walker (degree : Degree) : Agent :=
  { name := "walker"
    settings := Settings.standard
    counted := true
    knowledge := FactSet.empty
    beliefs := FactSet.empty.tell (.atom ⟨"rain"⟩) degree
    desireRules := RuleBase.empty
    obligationRules := RuleBase.empty
    obligations := FactSet.empty
    utility := Distribution.constant [] Degree.zero
    goals := FactSet.empty }

/-- Who believes to one half that it rains and hears for certain that the road
is wet loses nothing of the belief. -/
theorem updateBeliefs_keeps_uncontradicted_necessity_rain :
    let rain : Formula := .atom ⟨"rain"⟩
    let wet : Formula := .atom ⟨"wet"⟩
    let agent := walker Degree.half
    let left := ((updateBeliefs (.fact wet) (.truth true)).runOn agent).value.2
    agent.beliefs.isClassical = true ∧
      (agent.believes wet.negated).value.isZero = true ∧
      (agent.believes rain).value = Degree.half ∧
      Degree.half ≤ (left.believes rain).value := by
  intro rain wet agent left
  have uncontradicted : (agent.believes wet.negated).value.isZero = true := by
    decide +kernel
  have before : (agent.believes rain).value = Degree.half := by
    decide +kernel
  obtain ⟨_, kept, _⟩ := @updateBeliefs_keeps_uncontradicted_necessity agent
    (.fact wet) (.truth true) wet rain Degree.one rfl rfl (by decide +kernel)
    (by decide +kernel) (by decide +kernel) uncontradicted (by decide +kernel)
  rw [before] at kept
  exact ⟨by decide +kernel, uncontradicted, before, kept (Nat.le_refl _)⟩

/-- Below one half a belief can lose its last digits: one tenth has the rounded
complement nine tenths, whose own complement lies below one tenth. -/
theorem updateBeliefs_lowers_tenth :
    let rain : Formula := .atom ⟨"rain"⟩
    let wet : Formula := .atom ⟨"wet"⟩
    let tenth : Degree :=
      Degree.ofQuotient Binary64.unit 10 (by decide) (by omega)
    let agent := walker tenth
    let left := ((updateBeliefs (.fact wet) (.truth true)).runOn agent).value.2
    agent.beliefs.isClassical = true ∧
      (∀ item ∈ agent.beliefs.items, item.1.constant? = none) ∧
      wet.constant? = none ∧ wet.negated.constant? = none ∧
      (agent.believes wet.negated).value.isZero = true ∧
      rain.isClassical = true ∧
      (agent.believes rain).value = tenth ∧
      (left.believes rain).value < tenth := by
  decide +kernel

end Agent

end Possibilistic
