import Possibilistic.Proofs.Agent.Phases
import Possibilistic.Proofs.Agent.Rescaling
import Possibilistic.Proofs.FactBase.Assertion
import Possibilistic.Proofs.FactBase.Simplification

/-!
# The meaning of revision

A revision works on formulas: it drops, rescales and adds facts and simplifies
what comes out.  Over classical beliefs all of this amounts to a change of the
exclusion of every world.  A world of the evidence keeps its exclusion rescaled;
any other world keeps it as it was, raised to the trust.
-/

namespace Possibilistic

namespace Agent

open Deliberation

theorem value_addAlternatives_cons (previous revised : FactBase)
    (evidence fact : Formula) (degree : Degree)
    (rest : List (Formula × Degree)) :
    (addAlternatives previous evidence ((fact, degree) :: rest) revised).value =
      (addAlternatives previous evidence rest
        (revised.tellUnlessEntailed (fact.disj evidence)
          (previous.necessity fact).value)).value :=
  rfl

/-- Adding alternatives further excludes the worlds where the evidence fails,
as far as a listed fact that fails too was necessary. -/
theorem addAlternatives_preserves {previous revised : FactBase}
    {evidence : Formula} {atoms : List Atom}
    (evidenceClassical : evidence.isClassical = true)
    (evidenceCovered : evidence.mentions ⊆ atoms)
    {items : List (Formula × Degree)}
    (itemsOver : ∀ item ∈ items,
      item.1.isClassical = true ∧ item.1.mentions ⊆ atoms)
    (revisedOver : revised.facts.IsClassicalOver atoms) :
    (addAlternatives previous evidence items
        revised).value.facts.IsClassicalOver atoms ∧
      ∀ world ∈ World.all atoms, ∀ level : Degree, 0 < level.units →
        (level ≤ (addAlternatives previous evidence items
            revised).value.facts.exclusion world ↔
          level ≤ revised.facts.exclusion world ∨
            ((evidence.truth world).isZero = true ∧
              ∃ item ∈ items, (item.1.truth world).isZero = true ∧
                level ≤ (previous.necessity item.1).value)) := by
  induction items generalizing revised with
  | nil =>
      refine ⟨revisedOver, ?_⟩
      intro world _ level _
      simp [addAlternatives]
  | cons item rest ih =>
      obtain ⟨fact, degree⟩ := item
      obtain ⟨factClassical, factCovered⟩ :=
        itemsOver (fact, degree) List.mem_cons_self
      have alternativeClassical : (fact.disj evidence).isClassical = true := by
        simp [Formula.isClassical, factClassical, evidenceClassical]
      have alternativeCovered : (fact.disj evidence).mentions ⊆ atoms :=
        List.append_subset.mpr ⟨factCovered, evidenceCovered⟩
      have nextOver := FactBase.isClassicalOver_tellUnlessEntailed revisedOver
        alternativeClassical alternativeCovered (previous.necessity fact).value
      rw [value_addAlternatives_cons]
      obtain ⟨finalOver, final⟩ := ih
        (fun other member => itemsOver other (List.mem_cons_of_mem _ member))
        nextOver
      refine ⟨finalOver, ?_⟩
      intro world inAll level positive
      rw [final world inAll level positive,
        FactBase.le_exclusion_tellUnlessEntailed_iff revisedOver inAll
          alternativeClassical alternativeCovered rfl positive,
        Formula.truth_disj_isZero_iff]
      simp only [List.mem_cons, or_and_right, exists_or, exists_eq_left]
      grind

/-- The beliefs after a revision. -/
def revision (agent : Agent) (evidence : Formula) (trust : Degree) : FactSet :=
  let previous := agent.base agent.beliefs
  let contradiction := (previous.necessity evidence.negated).value
  let extended := (addAlternatives previous evidence previous.items
    (previous.withFacts (kept contradiction agent.beliefs))).value
  (extended.tellUnlessEntailed evidence trust).simplified.value.facts

/-- A revision does not fail. -/
theorem value_reviseBeliefs (agent : Agent) (evidence : Formula)
    (trust : Degree) :
    ((reviseBeliefs evidence trust).runOn agent).value =
      (.ok (), { agent with beliefs := agent.revision evidence trust }) := by
  simp only [reviseBeliefs, keepAbove_eq, runOn_bind, runOn_get, runOn_lift,
    runOn_ofExcept, runOn_set, pure_bind, resume_ok, Inquiry.value_bind,
    Inquiry.value_pure]
  rfl

/-- A revision that is accepted ends with a deliberation over the revised
beliefs. -/
theorem value_updateBeliefs {agent : Agent} {fact trust : Datum}
    {evidence : Formula} {degree : Degree}
    (factAccepted : fact.asFact = .ok evidence)
    (trustAccepted : trust.asDegreeFor "trust" = .ok degree) :
    ((updateBeliefs fact trust).runOn agent).value =
      (deliberate.runOn
        { agent with beliefs := agent.revision evidence degree }).value := by
  have revised := value_reviseBeliefs agent evidence degree
  simp only [updateBeliefs, factAccepted, trustAccepted, runOn_bind,
    runOn_ofExcept, pure_bind, resume_ok, Inquiry.value_bind, revised]

theorem undeliberated_updateBeliefs {agent : Agent} {fact trust : Datum}
    {evidence : Formula} {degree : Degree}
    (factAccepted : fact.asFact = .ok evidence)
    (trustAccepted : trust.asDegreeFor "trust" = .ok degree) :
    ((updateBeliefs fact trust).runOn agent).value.2.undeliberated =
      { agent.undeliberated with
        beliefs := agent.revision evidence degree } := by
  rw [value_updateBeliefs factAccepted trustAccepted]
  exact undeliberated_deliberate _

section

variable {agent : Agent} {evidence : Formula} {atoms : List Atom}
  (factsOver : agent.beliefs.IsClassicalOver atoms)
  (beliefsNonconstant : ∀ item ∈ agent.beliefs.items,
    item.1.constant? = none)

include factsOver beliefsNonconstant

/-- The beliefs that fail in a world are together as necessary as they exclude
it. -/
theorem exists_le_necessity_iff {world : Interpretation}
    (inAll : world ∈ World.all atoms) {level : Degree}
    (positive : 0 < level.units) :
    (∃ item ∈ agent.beliefs.items, (item.1.truth world).isZero = true ∧
      level ≤ (agent.believes item.1).value) ↔
        level ≤ agent.beliefs.exclusion world := by
  obtain ⟨classical, covered⟩ := FactSet.isClassicalOver_iff.mp factsOver
  constructor
  · intro ⟨item, present, fails, reached⟩
    have excluded : (agent.believes item.1).value ≤
        agent.beliefs.exclusion world :=
      FactBase.necessity_le_exclusion classical (factsOver item present).1 covered
        (factsOver item present).2 inAll fails
    exact Nat.le_trans reached excluded
  · intro reached
    obtain ⟨⟨fact, degree⟩, present, fails, below⟩ :=
      (FactSet.le_exclusion_iff positive).mp reached
    have necessary : agent.beliefs.membership fact ≤
        (agent.believes fact).value :=
      @FactBase.membership_le_necessity (agent.base agent.beliefs) fact
        (factsOver _ present).1 (beliefsNonconstant _ present)
    rw [FuzzySet.membership_eq_of_mem_items present] at necessary
    exact ⟨(fact, degree), present, fails, Nat.le_trans below necessary⟩

theorem revision_preserves (evidenceClassical : evidence.isClassical = true)
    (evidenceCovered : evidence.mentions ⊆ atoms)
    (nonconstant : evidence.constant? = none) (trust : Degree) :
    (agent.revision evidence trust).IsClassicalOver atoms ∧
      ∀ world ∈ World.all atoms, ∀ level : Degree, 0 < level.units →
        (level ≤ (agent.revision evidence trust).exclusion world ↔
          level ≤ retained (agent.beliefs.exclusion world)
            (agent.believes evidence.negated).value ∨
          ((evidence.truth world).isZero = true ∧
            (level ≤ agent.beliefs.exclusion world ∨ level ≤ trust))) := by
  let previous := agent.base agent.beliefs
  let contradiction := (previous.necessity evidence.negated).value
  let start := previous.withFacts (kept contradiction agent.beliefs)
  have startOver : start.facts.IsClassicalOver atoms :=
    isClassicalOver_kept factsOver
  let extended := (addAlternatives previous evidence previous.items start).value
  obtain ⟨extendedOver, extended_iff⟩ :
      extended.facts.IsClassicalOver atoms ∧ _ :=
    addAlternatives_preserves evidenceClassical evidenceCovered factsOver startOver
  have informedOver := FactBase.isClassicalOver_tellUnlessEntailed
    extendedOver evidenceClassical evidenceCovered trust
  obtain ⟨revisedOver, revised_eq⟩ :=
    FactBase.simplified_preserves informedOver
  refine ⟨revisedOver, ?_⟩
  intro world inAll level positive
  have started : start.facts.exclusion world = _ :=
    exclusion_kept world
  have alternatives : (∃ item ∈ previous.items,
      (item.1.truth world).isZero = true ∧
        level ≤ (previous.necessity item.1).value) ↔ _ :=
    exists_le_necessity_iff factsOver beliefsNonconstant inAll positive
  have informed := @FactBase.le_exclusion_tellUnlessEntailed_iff extended
    evidence atoms world extendedOver inAll evidenceClassical evidenceCovered
    nonconstant trust level positive
  rw [extended_iff world inAll level positive, alternatives, started, or_assoc,
    ← and_or_left, ← revised_eq world inAll] at informed
  exact informed

/-- Where the evidence holds, a world keeps its exclusion rescaled. -/
theorem exclusion_revision_of_isOne
    (evidenceClassical : evidence.isClassical = true)
    (evidenceCovered : evidence.mentions ⊆ atoms)
    (nonconstant : evidence.constant? = none) (trust : Degree)
    {world : Interpretation} (inAll : world ∈ World.all atoms)
    (holds : (evidence.truth world).isOne = true) :
    (agent.revision evidence trust).exclusion world =
      retained (agent.beliefs.exclusion world)
        (agent.believes evidence.negated).value := by
  obtain ⟨-, revised⟩ := revision_preserves factsOver beliefsNonconstant
    evidenceClassical evidenceCovered nonconstant trust
  apply Degree.ext_units
  · apply Degree.units_eq_of_le_iff
    intro level positive
    rw [revised world inAll level positive,
      Degree.isZero_eq_false_of_isOne holds]
    simp
  · rw [FactSet.negativeZero_exclusion, negativeZero_retained]

/-- Where the evidence fails, a world keeps its exclusion, raised to the
trust. -/
theorem exclusion_revision_of_isZero
    (evidenceClassical : evidence.isClassical = true)
    (evidenceCovered : evidence.mentions ⊆ atoms)
    (nonconstant : evidence.constant? = none) (trust : Degree)
    {world : Interpretation} (inAll : world ∈ World.all atoms)
    (fails : (evidence.truth world).isZero = true) :
    (agent.revision evidence trust).exclusion world =
      max (max (agent.beliefs.exclusion world) trust)
        (retained (agent.beliefs.exclusion world)
          (agent.believes evidence.negated).value) := by
  obtain ⟨-, revised⟩ := revision_preserves factsOver beliefsNonconstant
    evidenceClassical evidenceCovered nonconstant trust
  apply Degree.ext_units
  · apply Degree.units_eq_of_le_iff
    intro level positive
    rw [revised world inAll level positive, fails, Degree.le_max_iff,
      Degree.le_max_iff, or_comm]
    simp
  · rw [FactSet.negativeZero_exclusion, Degree.negativeZero_max]
    apply Degree.negativeZero_max
    exact FactSet.negativeZero_exclusion agent.beliefs world

theorem le_believes_of_revision (evidenceClassical : evidence.isClassical = true)
    (evidenceCovered : evidence.mentions ⊆ atoms)
    (nonconstant : evidence.constant? = none) (trust : Degree) {left : Agent}
    (beliefs_eq : left.beliefs = agent.revision evidence trust) :
    trust ≤ (left.believes evidence).value := by
  apply Degree.le_of_pos
  intro positive
  obtain ⟨revisedOver, revised⟩ := revision_preserves factsOver
    beliefsNonconstant evidenceClassical evidenceCovered nonconstant trust
  rw [← beliefs_eq] at revisedOver revised
  obtain ⟨classical, covered⟩ := FactSet.isClassicalOver_iff.mp revisedOver
  have reached : trust ≤
      ((left.base left.beliefs).necessity evidence).value := by
    apply (FactBase.le_necessity_iff_exclusion classical evidenceClassical
      covered evidenceCovered nonconstant positive).mpr
    intro world inAll fails
    exact (revised world inAll trust positive).mpr
      (.inr ⟨fails, .inr (Nat.le_refl _)⟩)
  exact reached

end

/-- Revision computes its meaning.  Where the evidence holds, a world excluded
above the level of contradiction is excluded at the rescaled degree and any
other world not at all; where it fails, a world is excluded as before, raised to
the trust.  So the evidence becomes as necessary as it is trusted. -/
theorem updateBeliefs_revises_exclusions {agent : Agent} {fact trust : Datum}
    {evidence : Formula} {degree : Degree} {atoms : List Atom}
    (factAccepted : fact.asFact = .ok evidence)
    (trustAccepted : trust.asDegreeFor "trust" = .ok degree)
    (beliefsClassical : agent.beliefs.isClassical = true)
    (beliefsCovered : agent.beliefs.mentions ⊆ atoms)
    (beliefsNonconstant : ∀ item ∈ agent.beliefs.items,
      item.1.constant? = none)
    (evidenceClassical : evidence.isClassical = true)
    (evidenceCovered : evidence.mentions ⊆ atoms)
    (nonconstant : evidence.constant? = none) :
    let contradiction := (agent.believes evidence.negated).value
    let left := ((updateBeliefs fact trust).runOn agent).value.2
    degree ≤ (left.believes evidence).value ∧
      ∀ world ∈ World.all atoms,
        let before := agent.beliefs.exclusion world
        let after := left.beliefs.exclusion world
        ∃ scaled : Degree,
          (contradiction < before →
            scaled.toBinary64 = rescaled before contradiction) ∧
          (¬contradiction < before → scaled = Degree.zero) ∧
          ((evidence.truth world).isOne = true → after = scaled) ∧
          ((evidence.truth world).isZero = true →
            after = max (max before degree) scaled) := by
  intro contradiction left
  have factsOver : agent.beliefs.IsClassicalOver atoms :=
    FactSet.isClassicalOver_iff.mpr ⟨beliefsClassical, beliefsCovered⟩
  have beliefs_eq : left.beliefs = agent.revision evidence degree :=
    congrArg beliefs (undeliberated_updateBeliefs factAccepted trustAccepted)
  constructor
  · exact le_believes_of_revision factsOver beliefsNonconstant evidenceClassical
      evidenceCovered nonconstant degree beliefs_eq
  · intro world inAll before after
    have after_eq : after = (agent.revision evidence degree).exclusion world :=
      congrArg (FactSet.exclusion · world) beliefs_eq
    refine ⟨retained before contradiction, ?_, ?_, ?_, ?_⟩
    · intro above
      simp only [retained, if_pos above]
      exact toBinary64_rescaling above
    · intro notAbove
      simp only [retained, if_neg notAbove]
    · intro holds
      rw [after_eq]
      exact exclusion_revision_of_isOne factsOver beliefsNonconstant
        evidenceClassical evidenceCovered nonconstant degree inAll holds
    · intro fails
      rw [after_eq]
      exact exclusion_revision_of_isZero factsOver beliefsNonconstant
        evidenceClassical evidenceCovered nonconstant degree inAll fails

/-- Half certain that there is no rain and certain that rain wets the road, one
hears for certain that it rains.  Then nothing speaks against a wet road in the
rain, and a dry road in the rain stays excluded. -/
theorem updateBeliefs_revises_exclusions_rain :
    let rain : Formula := .atom ⟨"rain"⟩
    let wet : Formula := .atom ⟨"wet"⟩
    let atoms : List Atom := [⟨"rain"⟩, ⟨"wet"⟩]
    let agent : Agent :=
      { name := "walker"
        settings := Settings.standard
        counted := true
        knowledge := FactSet.empty
        beliefs := (FactSet.empty.tell rain.neg Degree.half).tell
          (rain.neg.disj wet) Degree.one
        desireRules := RuleBase.empty
        obligationRules := RuleBase.empty
        obligations := FactSet.empty
        utility := Distribution.constant [] Degree.zero
        goals := FactSet.empty }
    let left :=
      ((updateBeliefs (.fact rain) (.truth true)).runOn agent).value.2
    Degree.one ≤ (left.believes rain).value ∧
      agent.beliefs.exclusion (World.numbered atoms 3) = Degree.half ∧
      left.beliefs.exclusion (World.numbered atoms 3) = Degree.zero ∧
      agent.beliefs.exclusion (World.numbered atoms 1) = Degree.one ∧
      left.beliefs.exclusion (World.numbered atoms 1) = Degree.one := by
  intro rain wet atoms agent left
  obtain ⟨necessary, worlds⟩ := @updateBeliefs_revises_exclusions agent
    (.fact rain) (.truth true) rain Degree.one atoms rfl rfl
    (by decide +kernel) (by decide +kernel) (by decide +kernel)
    (by decide +kernel) (by decide +kernel) (by decide +kernel)
  obtain ⟨wetScaled, _, wetGivenUp, wetHolds, _⟩ :=
    worlds (World.numbered atoms 3)
      (World.mem_all.mpr ⟨3, by decide +kernel, rfl⟩)
  obtain ⟨dryScaled, dryRescaled, _, dryHolds, _⟩ :=
    worlds (World.numbered atoms 1)
      (World.mem_all.mpr ⟨1, by decide +kernel, rfl⟩)
  refine ⟨necessary, by decide +kernel, ?_, by decide +kernel, ?_⟩
  · rw [wetHolds (by decide +kernel)]
    exact wetGivenUp (by decide +kernel)
  · rw [dryHolds (by decide +kernel)]
    have known : some dryScaled = some Degree.one := by
      rw [← Degree.ofBinary64?_toBinary64,
        dryRescaled (by decide +kernel)]
      decide +kernel
    exact Option.some.inj known

end Agent

end Possibilistic
