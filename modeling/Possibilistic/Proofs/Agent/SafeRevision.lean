import Possibilistic.Proofs.Agent.Revision
import Possibilistic.Proofs.FuzzySet.Equality

/-!
# Revision does not fail

Beliefs are rescaled only above the level of contradiction.  There the divisor
does not vanish and the rescaled number is a degree again, whatever the beliefs
and the evidence are, so an accepted revision gets as far as its deliberation.
Rescaling keeps the order of the degrees and leaves certain beliefs certain.
-/

namespace Possibilistic

namespace Agent

open Deliberation

/-- A degree is rescaled without a division by zero to a number from zero to
one, which is one for certainty and grows with the degree. -/
structure RescalesSafely (contradiction known : Degree) : Prop where
  nonzeroDivisor : contradiction.complement.isZero = false
  fromZero : Binary64.zero.le (rescaled known contradiction) = true
  toOne : (rescaled known contradiction).le Binary64.one = true
  keepsCertainty : known.isOne = true →
    rescaled known contradiction = Binary64.one
  keepsOrder : ∀ larger : Degree, known ≤ larger →
    (rescaled known contradiction).le (rescaled larger contradiction) = true

theorem rescalesSafely_of_lt {contradiction known : Degree}
    (above : contradiction < known) : RescalesSafely contradiction known := by
  constructor
  · apply Bool.eq_false_iff.mpr
    intro vanishing
    have positive := Degree.complement_pos_of_lt above
    have := Degree.isZero_iff.mp vanishing
    omega
  · rw [← toBinary64_rescaling above]
    exact (@Degree.le_toBinary64_iff Degree.zero _).mpr (Nat.zero_le _)
  · rw [← toBinary64_rescaling above]
    exact (@Degree.le_toBinary64_iff _ Degree.one).mpr
      (rescaling known contradiction).atMostOne
  · intro certain
    rw [← toBinary64_rescaling above, rescaling_of_isOne above certain]
    rfl
  · intro larger ordered
    have largerAbove : contradiction < larger :=
      Nat.lt_of_lt_of_le above ordered
    rw [← toBinary64_rescaling above, ← toBinary64_rescaling largerAbove,
      Degree.le_toBinary64_iff]
    exact rescaling_mono above ordered

/-- A belief above the level of contradiction is kept at the number that
rescales its degree. -/
theorem toBinary64_membership_kept {contradiction degree : Degree}
    {beliefs : FactSet} {fact : Formula}
    (present : (fact, degree) ∈ beliefs.items)
    (above : contradiction < degree) :
    ((kept contradiction beliefs).membership fact).toBinary64 =
      rescaled degree contradiction := by
  have same : (kept contradiction beliefs).membership fact =
      rescaling degree contradiction := by
    apply Degree.ext_units
    · apply Degree.units_eq_of_le_iff
      intro level positive
      rw [le_membership_kept_iff positive]
      constructor
      · intro ⟨known, inBeliefs, _, reached⟩
        -- A fact has one degree only.
        have equality : known = degree := by
          rw [← FuzzySet.membership_eq_of_mem_items inBeliefs,
            FuzzySet.membership_eq_of_mem_items present]
        exact equality ▸ reached
      · intro reached
        exact ⟨degree, present, above, reached⟩
    · rw [FuzzySet.negativeZero_membership, negativeZero_rescaling above]
  rw [same, toBinary64_rescaling above]

/-- An accepted revision keeps every belief above the level of contradiction at
its safely rescaled degree and fails nowhere before the deliberation that
follows it, for any beliefs and any evidence. -/
theorem updateBeliefs_rescales_safely {agent : Agent} {fact trust : Datum}
    {evidence : Formula} {degree : Degree}
    (factAccepted : fact.asFact = .ok evidence)
    (trustAccepted : trust.asDegreeFor "trust" = .ok degree) :
    let contradiction := (agent.believes evidence.negated).value
    (∀ known : Degree, contradiction < known →
      RescalesSafely contradiction known) ∧
    (∃ start, keepAbove contradiction agent.beliefs = .ok start ∧
      ∀ item ∈ agent.beliefs.items, contradiction < item.2 →
        (start.membership item.1).toBinary64 =
          rescaled item.2 contradiction) ∧
    ∃ revised : FactSet,
      ((reviseBeliefs evidence degree).runOn agent).value =
          (.ok (), { agent with beliefs := revised }) ∧
        ((updateBeliefs fact trust).runOn agent).value =
          (deliberate.runOn { agent with beliefs := revised }).value := by
  intro contradiction
  refine ⟨fun _ => rescalesSafely_of_lt, ?_, ?_⟩
  · refine ⟨kept contradiction agent.beliefs, keepAbove_eq _ _, ?_⟩
    intro item present above
    exact toBinary64_membership_kept present above
  · exact ⟨agent.revision evidence degree,
      value_reviseBeliefs agent evidence degree,
      value_updateBeliefs factAccepted trustAccepted⟩

/-- Certain that it rains, half certain that it does not, and half certain of
what is never more than a quarter true, one hears for certain that it rains.
The level of contradiction is one half, and the certain belief stays certain. -/
theorem updateBeliefs_rescales_safely_rain :
    let rain : Formula := .atom ⟨"rain"⟩
    let agent : Agent :=
      { name := "walker"
        settings := Settings.standard
        counted := true
        knowledge := FactSet.empty
        beliefs := ((FactSet.empty.tell rain Degree.one).tell rain.neg
          Degree.half).tell (.atom ⟨"0.25"⟩) Degree.half
        desireRules := RuleBase.empty
        obligationRules := RuleBase.empty
        obligations := FactSet.empty
        utility := Distribution.constant [] Degree.zero
        goals := FactSet.empty }
    (agent.believes rain.negated).value = Degree.half ∧
      rescaled Degree.one Degree.half = Binary64.one ∧
      ∃ revised : FactSet,
        ((reviseBeliefs rain Degree.one).runOn agent).value =
          (.ok (), { agent with beliefs := revised }) := by
  intro rain agent
  have contradiction : (agent.believes rain.negated).value = Degree.half := by
    decide +kernel
  obtain ⟨safe, _, revised, succeeds, _⟩ := @updateBeliefs_rescales_safely
    agent (.fact rain) (.truth true) rain Degree.one rfl rfl
  rw [contradiction] at safe
  refine ⟨contradiction, ?_, revised, succeeds⟩
  exact (safe Degree.one (by decide +kernel)).keepsCertainty (by decide +kernel)

end Agent

end Possibilistic
