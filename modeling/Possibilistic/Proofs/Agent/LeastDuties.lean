import Possibilistic.Proofs.Agent.Duties

/-!
# The least obligations

Where every rule concludes a literal from an antecedent in negation normal form,
passes from no obligations up ascend towards every solution.  At each level a
pass that still adds an obligation adds the consequent of a rule, so one more
pass than there are rules finds nothing to change.
-/

namespace Possibilistic

namespace Agent

open Deliberation

/-- Under the obligations every consequent is as obligatory as the strongest
duty that they give rise to. -/
def SolvesObligations (agent : Agent) (obligations : FactSet) : Prop :=
  ∀ rule ∈ agent.obligationRules.rules,
    obligations.membership rule.consequent =
      agent.strongestDuty obligations rule.consequent

instance (agent : Agent) (obligations : FactSet) :
    Decidable (agent.SolvesObligations obligations) :=
  inferInstanceAs (Decidable (∀ rule ∈ agent.obligationRules.rules,
    obligations.membership rule.consequent =
      agent.strongestDuty obligations rule.consequent))

/-- The obligation rules whose consequents reach a level. -/
def heldRules (agent : Agent) (level : Degree) (obligations : FactSet) :
    List Rule :=
  agent.obligationRules.rules.filter fun rule =>
    level ≤ obligations.membership rule.consequent

theorem length_heldRules_le (agent : Agent) (level : Degree)
    (obligations : FactSet) :
    (agent.heldRules level obligations).length ≤ agent.obligationRules.size :=
  List.length_filter_le _ _

section

variable {agent : Agent} {level : Degree} (positive : 0 < level.units)

include positive

theorem le_membership_iff_heldRules {passes : Nat} {fact : Formula} :
    level ≤ (agent.obligationsAfter passes).membership fact ↔
      ∃ rule ∈ agent.heldRules level (agent.obligationsAfter passes),
        rule.consequent = fact := by
  constructor
  · intro reached
    obtain ⟨rule, present, concludes⟩ :=
      exists_rule_of_membership_pos (Nat.lt_of_lt_of_le positive reached)
    refine ⟨rule, List.mem_filter.mpr ⟨present, ?_⟩, concludes⟩
    rw [concludes]
    exact decide_eq_true reached
  · intro ⟨rule, held, concludes⟩
    rw [← concludes]
    exact of_decide_eq_true (List.mem_filter.mp held).2

theorem le_membership_iff_of_heldRules_eq {passes others : Nat}
    (same : agent.heldRules level (agent.obligationsAfter passes) =
      agent.heldRules level (agent.obligationsAfter others)) (fact : Formula) :
    level ≤ (agent.obligationsAfter passes).membership fact ↔
      level ≤ (agent.obligationsAfter others).membership fact := by
  rw [le_membership_iff_heldRules positive,
    le_membership_iff_heldRules positive, same]

end

section

variable {agent : Agent}
  (literal : ∀ rule ∈ agent.obligationRules.rules,
    rule.consequent.isLiteral = true)
  (nonconstant : ∀ rule ∈ agent.obligationRules.rules,
    rule.consequent.constant? = none)

include literal nonconstant

theorem heldRules_sublist_succ {level : Degree} (positive : 0 < level.units)
    (passes : Nat) :
    List.Sublist (agent.heldRules level (agent.obligationsAfter passes))
      (agent.heldRules level (agent.obligationsAfter (passes + 1))) := by
  apply List.monotone_filter_right
  intro rule held
  exact decide_eq_true (le_membership_obligationsAfter_mono literal nonconstant
    (Nat.le_succ passes) positive (of_decide_eq_true held))

variable (normal : ∀ rule ∈ agent.obligationRules.rules,
  rule.obligation.isNegationNormal = true)

include normal

/-- A pass that adds nothing at a level is followed by another such pass. -/
theorem heldRules_stalled {level : Degree} (positive : 0 < level.units)
    {passes : Nat}
    (stalled : agent.heldRules level (agent.obligationsAfter (passes + 1)) =
      agent.heldRules level (agent.obligationsAfter passes)) :
    agent.heldRules level (agent.obligationsAfter (passes + 2)) =
      agent.heldRules level (agent.obligationsAfter (passes + 1)) := by
  have same := le_membership_iff_of_heldRules_eq positive stalled
  apply List.filter_congr
  intro rule present
  apply decide_eq_decide.mpr
  rw [le_membership_obligationsAfter_succ_iff literal nonconstant (passes + 1)
    positive]
  constructor
  · intro reached
    rcases reached with before | found
    · exact before
    · -- What the pass finds at this level was found by the pass before it.
      apply (le_membership_obligationsAfter_succ_iff literal nonconstant passes
        positive).mpr
      right
      exact le_strongestDuty_of_isNegationNormal
        (holdsLiterals_obligationsAfter literal (passes + 1))
        (holdsLiterals_obligationsAfter literal passes).supportsParts
        (fun fact => (same fact).mp) positive
        (fun other member _ => normal other member) found
  · exact .inl

/-- After as many passes as there are rules the next one changes nothing. -/
theorem membership_obligationsAfter_size :
    (agent.obligationsAfter (agent.obligationRules.size + 1)).membership =
      (agent.obligationsAfter agent.obligationRules.size).membership := by
  funext fact
  apply FuzzySet.membership_eq_of_le_iff
  intro level positive
  apply le_membership_iff_of_heldRules_eq positive
  apply stalled_of_ascending
    (fun passes => agent.heldRules level (agent.obligationsAfter passes))
  · exact heldRules_sublist_succ literal nonconstant positive
  · exact fun _ => agent.length_heldRules_le level _
  · exact fun _ => heldRules_stalled literal nonconstant normal positive

/-- No pass goes beyond a solution. -/
theorem le_membership_of_solvesObligations {other : FactSet}
    (parts : SupportsParts other) (solves : agent.SolvesObligations other)
    (passes : Nat) {fact : Formula} {level : Degree}
    (positive : 0 < level.units)
    (reached : level ≤ (agent.obligationsAfter passes).membership fact) :
    level ≤ other.membership fact := by
  induction passes generalizing fact with
  | zero =>
      rw [membership_obligationsAfter_zero, Degree.le_iff,
        Degree.units_zero] at reached
      omega
  | succ passes ih =>
      rcases (le_membership_obligationsAfter_succ_iff literal nonconstant passes
        positive).mp reached with before | found
      · exact ih before
      · have duty : level ≤ agent.strongestDuty other fact :=
          le_strongestDuty_of_isNegationNormal
            (holdsLiterals_obligationsAfter literal passes) parts
            (fun _ => ih) positive (fun rule present _ => normal rule present)
            found
        obtain ⟨rule, present, concludes, _⟩ :=
          (le_strongestDuty_iff positive).mp duty
        rw [← concludes] at duty ⊢
        rw [solves rule present]
        exact duty

/-- One pass more than there are rules is enough to settle. -/
theorem settledObligations_of_size_lt
    (enough : agent.obligationRules.size <
      agent.settings.deliberation.maxObligationIterations.toNat) :
    agent.settledObligations.1 = true := by
  have settled := membership_obligationsAfter_size literal nonconstant normal
  rw [obligationsAfter_succ] at settled
  let changes := fun obligations =>
    agent.renewedObligations obligations != obligations
  have unchanged : changes
      (agent.renewedObligations^[agent.obligationRules.size] FactSet.empty) =
        false := by
    simp only [changes, bne, Bool.not_eq_false']
    exact FuzzySet.beq_iff.mpr settled
  obtain ⟨_, _, stabilized⟩ := exists_stabilize_eq enough _ unchanged
  exact congrArg Prod.fst stabilized

end

/-- The obligations hold to rest fully when both work and travel are obligatory.
A set that holds their conjunction to one half only solves the rules as well,
and has the obligation to rest at one half. -/
example :
    let work : Formula := .atom ⟨"work"⟩
    let travel : Formula := .atom ⟨"travel"⟩
    let rest : Formula := .atom ⟨"rest"⟩
    let agent := dutiful Settings.standard
      ⟨[{ consequent := work }, { consequent := travel },
        { consequent := rest, obligation := work.conj travel }],
        by decide +kernel⟩
    let other := ((FactSet.empty.tell work Degree.one).tell travel
      Degree.one).tell (work.conj travel) Degree.half
    agent.SolvesObligations (other.tell rest Degree.half) ∧
      agent.settledObligations.2.membership rest = Degree.one := by
  decide +kernel

end Agent

end Possibilistic
