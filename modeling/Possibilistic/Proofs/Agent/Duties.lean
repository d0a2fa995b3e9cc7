import Possibilistic.Proofs.Agent.Obligations
import Possibilistic.Proofs.Formula.Expansion

/-!
# What obligations rest on

Where every rule concludes a literal, a pass supports a consequent by nothing
but its own membership.  So an obligation is as strong as the strongest duty
that a pass has found for it, in the last pass or in an earlier one.  Duties can
weaken from pass to pass only through negated compounds and exclusive
disjunctions: an antecedent in negation normal form keeps its support.
-/

namespace Possibilistic

namespace Agent

open Deliberation

/-- The greatest activation, under some obligations, of an obligation rule that
concludes a fact, zero where there is none. -/
def strongestDuty (agent : Agent) (obligations : FactSet) (fact : Formula) :
    Degree :=
  Degree.maximum <|
    (agent.obligationRules.rules.filter fun rule =>
      rule.consequent = fact).map fun rule =>
        ({ agent with obligations }.activation rule).value

theorem le_strongestDuty_iff {agent : Agent} {obligations : FactSet}
    {fact : Formula} {level : Degree} (positive : 0 < level.units) :
    level ≤ agent.strongestDuty obligations fact ↔
      ∃ rule ∈ agent.obligationRules.rules, rule.consequent = fact ∧
        level ≤ ({ agent with obligations }.activation rule).value := by
  rw [strongestDuty, Degree.le_maximum_iff positive]
  constructor
  · intro ⟨degree, member, reached⟩
    obtain ⟨rule, inFilter, equality⟩ := List.mem_map.mp member
    obtain ⟨present, concludes⟩ := List.mem_filter.mp inFilter
    rw [← equality] at reached
    exact ⟨rule, present, of_decide_eq_true concludes, reached⟩
  · intro ⟨rule, present, concludes, reached⟩
    refine ⟨({ agent with obligations }.activation rule).value, ?_, reached⟩
    apply List.mem_map_of_mem
    exact List.mem_filter.mpr ⟨present, decide_eq_true concludes⟩

/-- A literal is supported as far as it is a member. -/
theorem justify_of_isLiteral {facts : FactSet} {fact : Formula}
    (literal : fact.isLiteral = true) (nonconstant : fact.constant? = none) :
    justify facts fact = facts.membership fact := by
  unfold justify
  simp only [nonconstant, literal]
  cases vanishing : (facts.membership fact).isZero with
  | true =>
      apply Degree.ext_units
      · exact (Degree.isZero_iff.mp vanishing).symm
      · exact (FuzzySet.negativeZero_membership facts fact).symm
  | false => rfl

/-- A compound that is no member is supported as its parts are. -/
theorem justify_binary_of_isZero {facts : FactSet} {connective : Connective}
    {first second : Formula}
    (absent : (facts.membership (.binary connective first second)).isZero =
      true) :
    justify facts (.binary connective first second) =
      connective.truth (justify facts first) (justify facts second) := by
  rw [justify]
  simp only [Formula.constant?, absent, Formula.isLiteral, Bool.not_true,
    Bool.false_eq_true, ↓reduceIte]

/-- All facts are literals. -/
def HoldsLiterals (facts : FactSet) : Prop :=
  ∀ fact, 0 < (facts.membership fact).units → fact.isLiteral = true

/-- No conjunction or disjunction is held below the support of its parts. -/
structure SupportsParts (facts : FactSet) : Prop where
  conj : ∀ first second, min (justify facts first) (justify facts second) ≤
    justify facts (first.conj second)
  disj : ∀ first second, max (justify facts first) (justify facts second) ≤
    justify facts (first.disj second)

theorem HoldsLiterals.isZero_binary {facts : FactSet}
    (literals : HoldsLiterals facts) (connective : Connective)
    (first second : Formula) :
    (facts.membership (.binary connective first second)).isZero = true := by
  apply Degree.isZero_iff.mpr
  apply Nat.eq_zero_of_not_pos
  intro positive
  cases literals _ positive

theorem HoldsLiterals.supportsParts {facts : FactSet}
    (literals : HoldsLiterals facts) : SupportsParts facts := by
  constructor
  · intro first second
    rw [justify_binary_of_isZero (literals.isZero_binary .and first second)]
    exact Nat.le_refl _
  · intro first second
    rw [justify_binary_of_isZero (literals.isZero_binary .or first second)]
    exact Nat.le_refl _

section

variable {left right : FactSet} {level : Degree}
  (literals : HoldsLiterals left) (parts : SupportsParts right)
  (members : ∀ fact, level ≤ left.membership fact →
    level ≤ right.membership fact)

include literals parts members

/-- Where a set of literals supports a formula in negation normal form to a
level, so does a set that holds these literals to this level. -/
theorem le_justify_of_isNegationNormal {formula : Formula}
    (normal : formula.isNegationNormal = true)
    (reached : level ≤ justify left formula) :
    level ≤ justify right formula := by
  induction formula with
  | atom symbol =>
      cases known : (Formula.atom symbol).constant? with
      | some degree =>
          unfold justify at reached ⊢
          simpa only [known] using reached
      | none =>
          rw [justify_of_isLiteral rfl known] at reached ⊢
          exact members _ reached
  | neg operand ih =>
      have literal : operand.neg.isLiteral = true := normal
      rw [justify_of_isLiteral literal rfl] at reached ⊢
      exact members _ reached
  | binary connective first second firstIh secondIh =>
      rw [justify_binary_of_isZero
        (literals.isZero_binary connective first second)] at reached
      cases connective with
      | and =>
          simp only [Formula.isNegationNormal, Bool.and_eq_true] at normal
          obtain ⟨firstReached, secondReached⟩ := Degree.le_min_iff.mp reached
          have both : level ≤
              min (justify right first) (justify right second) :=
            Degree.le_min_iff.mpr ⟨firstIh normal.1 firstReached,
              secondIh normal.2 secondReached⟩
          exact Nat.le_trans both (parts.conj first second)
      | or =>
          simp only [Formula.isNegationNormal, Bool.and_eq_true] at normal
          have one : level ≤
              max (justify right first) (justify right second) := by
            apply Degree.le_max_iff.mpr
            rcases Degree.le_max_iff.mp reached with inFirst | inSecond
            · exact .inl (firstIh normal.1 inFirst)
            · exact .inr (secondIh normal.2 inSecond)
          exact Nat.le_trans one (parts.disj first second)
      | xor => cases normal

theorem le_activation_of_isNegationNormal {agent : Agent} {rule : Rule}
    (normal : rule.obligation.isNegationNormal = true)
    (reached : level ≤
      ({ agent with obligations := left }.activation rule).value) :
    level ≤ ({ agent with obligations := right }.activation rule).value := by
  obtain ⟨known, believed, desired, required⟩ := le_activation_iff.mp reached
  apply le_activation_iff.mpr
  exact ⟨known, believed, desired,
    le_justify_of_isNegationNormal literals parts members normal required⟩

/-- Obligations that reach a level at more literals find duties of this level
for more facts. -/
theorem le_strongestDuty_of_isNegationNormal {agent : Agent} {fact : Formula}
    (positive : 0 < level.units)
    (normal : ∀ rule ∈ agent.obligationRules.rules, rule.consequent = fact →
      rule.obligation.isNegationNormal = true)
    (reached : level ≤ agent.strongestDuty left fact) :
    level ≤ agent.strongestDuty right fact := by
  obtain ⟨rule, present, concludes, active⟩ :=
    (le_strongestDuty_iff positive).mp reached
  apply (le_strongestDuty_iff positive).mpr
  exact ⟨rule, present, concludes,
    le_activation_of_isNegationNormal literals parts members
      (normal rule present concludes) active⟩

end

theorem strongestDuty_congr {left right : FactSet}
    (same : left.membership = right.membership) (agent : Agent)
    (fact : Formula) :
    agent.strongestDuty left fact = agent.strongestDuty right fact := by
  have sameSupport : ∀ formula, justify left formula = justify right formula :=
    justify_congr fun fact _ => congrFun same fact
  rw [strongestDuty, strongestDuty]
  congr 1
  apply List.map_congr_left
  intro rule _
  exact value_activation_congr agent (sameSupport rule.obligation)

section

variable {agent : Agent}
  (literal : ∀ rule ∈ agent.obligationRules.rules,
    rule.consequent.isLiteral = true)
  (nonconstant : ∀ rule ∈ agent.obligationRules.rules,
    rule.consequent.constant? = none)

include literal

theorem holdsLiterals_obligationsAfter (passes : Nat) :
    HoldsLiterals (agent.obligationsAfter passes) := by
  intro fact positive
  obtain ⟨rule, present, concludes⟩ := exists_rule_of_membership_pos positive
  rw [← concludes]
  exact literal rule present

include nonconstant

/-- A pass finds its own duties and keeps what was obligatory before. -/
theorem le_membership_obligationsAfter_succ_iff (passes : Nat)
    {fact : Formula} {level : Degree} (positive : 0 < level.units) :
    level ≤ (agent.obligationsAfter (passes + 1)).membership fact ↔
      level ≤ (agent.obligationsAfter passes).membership fact ∨
        level ≤ agent.strongestDuty (agent.obligationsAfter passes) fact := by
  rw [obligationsAfter_succ, le_membership_renewedObligations_iff positive,
    le_strongestDuty_iff positive]
  constructor
  · intro ⟨rule, present, concludes, reached⟩
    rcases reached with active | supported
    · exact .inr ⟨rule, present, concludes, active⟩
    · left
      rw [← concludes] at supported ⊢
      rw [justify_of_isLiteral (literal rule present)
        (nonconstant rule present)] at supported
      exact supported
  · intro reached
    rcases reached with before | ⟨rule, present, concludes, active⟩
    · obtain ⟨rule, present, concludes⟩ :=
        exists_rule_of_membership_pos (Nat.lt_of_lt_of_le positive before)
      refine ⟨rule, present, concludes, .inr ?_⟩
      apply Nat.le_trans before
      rw [← concludes]
      exact membership_le_justify _ (nonconstant rule present)
    · exact ⟨rule, present, concludes, .inl active⟩

/-- An obligation reaches a level when a pass has found a duty of this level. -/
theorem le_membership_obligationsAfter_iff (passes : Nat) {fact : Formula}
    {level : Degree} (positive : 0 < level.units) :
    level ≤ (agent.obligationsAfter passes).membership fact ↔
      ∃ earlier < passes, level ≤
        agent.strongestDuty (agent.obligationsAfter earlier) fact := by
  induction passes with
  | zero =>
      rw [membership_obligationsAfter_zero, Degree.le_iff, Degree.units_zero]
      constructor
      · intro vanishing
        omega
      · intro ⟨earlier, below, _⟩
        omega
  | succ passes ih =>
      rw [le_membership_obligationsAfter_succ_iff literal nonconstant passes
        positive, ih, Nat.exists_lt_succ_right]

/-- An obligation is as strong as the strongest duty that a pass has found. -/
theorem membership_obligationsAfter_eq_maximum (passes : Nat)
    (fact : Formula) :
    (agent.obligationsAfter passes).membership fact =
      Degree.maximum ((List.range passes).map fun earlier =>
        agent.strongestDuty (agent.obligationsAfter earlier) fact) := by
  apply Degree.ext_units
  · apply Degree.units_eq_of_le_iff
    intro level positive
    rw [le_membership_obligationsAfter_iff literal nonconstant passes positive,
      Degree.le_maximum_iff positive]
    simp only [List.mem_map, List.mem_range, exists_exists_and_eq_and]
  · rw [FuzzySet.negativeZero_membership, Degree.negativeZero_maximum]

/-- Obligations do not weaken from pass to pass. -/
theorem le_membership_obligationsAfter_mono {earlier later : Nat}
    (ordered : earlier ≤ later) {fact : Formula} {level : Degree}
    (positive : 0 < level.units)
    (reached : level ≤ (agent.obligationsAfter earlier).membership fact) :
    level ≤ (agent.obligationsAfter later).membership fact := by
  obtain ⟨pass, below, found⟩ :=
    (le_membership_obligationsAfter_iff literal nonconstant earlier
      positive).mp reached
  apply (le_membership_obligationsAfter_iff literal nonconstant later
    positive).mpr
  exact ⟨pass, Nat.lt_of_lt_of_le below ordered, found⟩

theorem strongestDuty_le_membership_succ (passes : Nat) (fact : Formula) :
    agent.strongestDuty (agent.obligationsAfter passes) fact ≤
      (agent.obligationsAfter (passes + 1)).membership fact := by
  apply Degree.le_of_pos
  intro positive
  exact (le_membership_obligationsAfter_succ_iff literal nonconstant passes
    positive).mpr (.inr (Nat.le_refl _))

/-- Duties from antecedents in negation normal form do not weaken, so the
obligations after any pass are below the duties that they give rise to. -/
theorem membership_le_strongestDuty (passes : Nat) {fact : Formula}
    (normal : ∀ rule ∈ agent.obligationRules.rules, rule.consequent = fact →
      rule.obligation.isNegationNormal = true) :
    (agent.obligationsAfter passes).membership fact ≤
      agent.strongestDuty (agent.obligationsAfter passes) fact := by
  apply Degree.le_of_pos
  intro positive
  obtain ⟨earlier, below, found⟩ :=
    (le_membership_obligationsAfter_iff literal nonconstant passes
      positive).mp (Nat.le_refl _)
  apply le_strongestDuty_of_isNegationNormal
    (holdsLiterals_obligationsAfter literal earlier)
    (holdsLiterals_obligationsAfter literal passes).supportsParts _ positive
    normal found
  intro other
  exact le_membership_obligationsAfter_mono literal nonconstant
    (Nat.le_of_lt below) positive

section

variable {last : Nat} (unchanged :
  (agent.obligationsAfter (last + 1)).membership =
    (agent.obligationsAfter last).membership)

include unchanged

/-- After a pass that changed nothing no obligation is below its duty. -/
theorem strongestDuty_le_membership (fact : Formula) :
    agent.strongestDuty (agent.obligationsAfter (last + 1)) fact ≤
      (agent.obligationsAfter (last + 1)).membership fact := by
  rw [strongestDuty_congr unchanged]
  exact strongestDuty_le_membership_succ literal nonconstant last fact

theorem membership_eq_strongestDuty {fact : Formula}
    (normal : ∀ rule ∈ agent.obligationRules.rules, rule.consequent = fact →
      rule.obligation.isNegationNormal = true) :
    (agent.obligationsAfter (last + 1)).membership fact =
      agent.strongestDuty (agent.obligationsAfter (last + 1)) fact := by
  apply Degree.ext_units
  · exact Nat.le_antisymm
      (membership_le_strongestDuty literal nonconstant (last + 1) normal)
      (strongestDuty_le_membership literal nonconstant unchanged fact)
  · exact (FuzzySet.negativeZero_membership _ fact).trans
      (Degree.negativeZero_maximum _).symm

end

end

/-- An update that settles ends after a pass that changed nothing. -/
theorem exists_last_pass {agent : Agent}
    (stable : agent.settledObligations.1 = true) :
    ∃ last,
      (agent.obligationsAfter (last + 1)).membership =
        (agent.obligationsAfter last).membership ∧
      agent.settledObligations.2 = agent.obligationsAfter (last + 1) := by
  obtain ⟨last, _, unchanged, left⟩ := exists_of_stabilize_eq_true stable
  refine ⟨last, ?_, left⟩
  rw [obligationsAfter_succ]
  simp only [bne, Bool.not_eq_false'] at unchanged
  exact FuzzySet.beq_iff.mp unchanged

/-- Where every rule concludes a literal, an update of the obligations that
settles leaves every consequent at the strongest duty that one of its passes
found.  The last pass found the duties of the final state, and no obligation is
below them.  It is above them only where an earlier duty has weakened, which
takes an antecedent that is not in negation normal form. -/
theorem updateObligations_keeps_strongest_duties {agent settled : Agent}
    (literal : ∀ rule ∈ agent.obligationRules.rules,
      rule.consequent.isLiteral = true)
    (nonconstant : ∀ rule ∈ agent.obligationRules.rules,
      rule.consequent.constant? = none)
    (stable : ((untilStable obligationPass
        agent.settings.deliberation.maxObligationIterations.toNat).runOn
      { agent with obligations := FactSet.empty }).value =
        (.ok true, settled)) :
    (updateObligations.runOn agent).value = (.ok (), settled) ∧
    ∃ last : Nat,
      settled =
        { agent with obligations := agent.obligationsAfter (last + 1) } ∧
      ∀ fact : Formula,
        settled.obligations.membership fact =
          Degree.maximum ((List.range (last + 1)).map fun pass =>
            agent.strongestDuty (agent.obligationsAfter pass) fact) ∧
        settled.strongestDuty settled.obligations fact =
          agent.strongestDuty (agent.obligationsAfter last) fact ∧
        settled.strongestDuty settled.obligations fact ≤
          settled.obligations.membership fact ∧
        ((∀ rule ∈ agent.obligationRules.rules, rule.consequent = fact →
            rule.obligation.isNegationNormal = true) →
          settled.obligations.membership fact =
            settled.strongestDuty settled.obligations fact) := by
  rw [value_untilStable_obligationPass] at stable
  obtain ⟨isStable, isSettled⟩ := Prod.mk.inj stable
  have found := Except.ok.inj isStable
  constructor
  · rw [← isSettled]
    exact (updateObligations_of_settled found).1
  · obtain ⟨last, unchanged, left⟩ := exists_last_pass found
    rw [left] at isSettled
    symm at isSettled
    refine ⟨last, isSettled, ?_⟩
    intro fact
    subst isSettled
    have maximal := membership_obligationsAfter_eq_maximum literal nonconstant
      (last + 1) fact
    have duties : agent.strongestDuty (agent.obligationsAfter (last + 1)) fact =
        agent.strongestDuty (agent.obligationsAfter last) fact :=
      strongestDuty_congr unchanged agent fact
    exact ⟨maximal, duties,
      strongestDuty_le_membership literal nonconstant unchanged fact,
      membership_eq_strongestDuty literal nonconstant unchanged⟩

/-- An agent with nothing but obligation rules. -/
def dutiful (settings : Settings) (obligationRules : RuleBase) : Agent :=
  { name := "servant"
    settings
    counted := true
    knowledge := FactSet.empty
    beliefs := FactSet.empty
    desireRules := RuleBase.empty
    obligationRules
    obligations := FactSet.empty
    utility := Distribution.constant [] Degree.zero
    goals := FactSet.empty }

/-- Someone obliged to work and to travel, and to rest unless obliged to do
both. -/
def worker : Agent :=
  dutiful Settings.standard
    ⟨[{ consequent := .atom ⟨"work"⟩ }, { consequent := .atom ⟨"travel"⟩ },
      { consequent := .atom ⟨"rest"⟩
        obligation := .neg (.conj (.atom ⟨"work"⟩) (.atom ⟨"travel"⟩)) }],
      by decide⟩

/-- The obligation to work is what its rule makes it in the final state. -/
theorem updateObligations_keeps_strongest_duties_work :
    let work : Formula := .atom ⟨"work"⟩
    ∃ settled : Agent,
      (updateObligations.runOn worker).value = (.ok (), settled) ∧
      settled.obligations.membership work =
        settled.strongestDuty settled.obligations work ∧
      settled.obligations.membership work = Degree.one := by
  intro work
  have settles : worker.settledObligations.1 = true := by
    decide +kernel
  have stable := value_untilStable_obligationPass worker
  rw [settles] at stable
  obtain ⟨reached, _, _, duties⟩ := updateObligations_keeps_strongest_duties
    (by decide +kernel) (by decide +kernel) stable
  obtain ⟨_, _, _, kept⟩ := duties work
  exact ⟨_, reached, kept (by decide +kernel), by decide +kernel⟩

/-- The first pass finds no obligation to do both and tells one to rest.  The
second tells one to do both, and the obligation to rest is kept although nothing
supports it any more. -/
theorem updateObligations_keeps_weakened_duty :
    let rest : Formula := .atom ⟨"rest"⟩
    let settled := (updateObligations.runOn worker).value.2
    (∀ rule ∈ worker.obligationRules.rules,
      rule.consequent.isLiteral = true ∧ rule.consequent.constant? = none) ∧
    ((untilStable obligationPass
        worker.settings.deliberation.maxObligationIterations.toNat).runOn
      { worker with obligations := FactSet.empty }).value =
        (.ok true, settled) ∧
    settled.obligations.membership rest = Degree.one ∧
    settled.strongestDuty settled.obligations rest = Degree.zero := by
  have settles : worker.settledObligations.1 = true := by
    decide +kernel
  have stable := value_untilStable_obligationPass worker
  rw [settles] at stable
  refine ⟨by decide +kernel, ?_, by decide +kernel, by decide +kernel⟩
  rw [stable, value_updateObligations]

end Agent

end Possibilistic
