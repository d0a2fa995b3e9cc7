import Mathlib.Data.List.ProdSigma
import Possibilistic.Proofs.Agent.Justification
import Possibilistic.Proofs.Agent.Phases

/-!
# Settling obligations

A pass over the obligation rules supports every consequent by what was told
before, so the membership of a consequent that is no constant never decreases
from pass to pass, although negated compounds may lose support.  All these
memberships come from a finite list of degrees.  Hence some pass changes none of
them, and the next one changes nothing at all.
-/

namespace Possibilistic

namespace Agent

open Deliberation

theorem value_activation (agent : Agent) (rule : Rule) :
    (agent.activation rule).value =
      min (min (min (agent.knows rule.knowledge).value
        (agent.believes rule.belief).value) (agent.desires rule.desire))
        (agent.must rule.obligation) :=
  rfl

theorem le_membership_foldl_tell_iff {agent : Agent} {previous : FactSet}
    {fact : Formula} {level : Degree} {rules : List Rule} {start : FactSet} :
    level ≤ (rules.foldl (fun result rule =>
        result.tell rule.consequent
          (max (max (agent.activation rule).value
              (result.membership rule.consequent))
            (justify previous rule.consequent))) start).membership fact ↔
      level ≤ start.membership fact ∨
        ∃ rule ∈ rules, rule.consequent = fact ∧
          (level ≤ (agent.activation rule).value ∨
            level ≤ justify previous fact) := by
  induction rules generalizing start with
  | nil => simp
  | cons rule rest ih =>
      rw [List.foldl_cons, ih, FactSet.tell,
        FuzzySet.le_membership_assign_iff, Degree.le_max_iff,
        Degree.le_max_iff]
      simp only [List.mem_cons, exists_eq_or_imp, ← or_assoc]
      apply or_congr_left
      by_cases same : fact = rule.consequent
      · subst same
        simp only [true_and, ne_eq, not_true_eq_false, false_and, or_false]
        rw [or_right_comm, or_comm, ← or_assoc, or_right_comm]
      · simp [same, Ne.symm same]

section

variable {agent : Agent} {previous : FactSet} {fact : Formula}
  {level : Degree} (positive : 0 < level.units)

include positive

/-- A pass reaches a level at the consequents of rules that are active to this
level or that were supported to it before. -/
theorem le_membership_renewedObligations_iff :
    level ≤ (agent.renewedObligations previous).membership fact ↔
      ∃ rule ∈ agent.obligationRules.rules, rule.consequent = fact ∧
        (level ≤
            ({ agent with obligations := previous }.activation rule).value ∨
          level ≤ justify previous fact) := by
  have absent : ¬level ≤ FactSet.empty.membership fact := by
    change ¬level.units ≤ 0
    omega
  simp only [renewedObligations, applyRules, Inquiry.value_foldlM,
    Inquiry.value_bind, Inquiry.value_pure]
  rw [le_membership_foldl_tell_iff, or_iff_right absent]

end

theorem value_activation_congr {left right : FactSet} {rule : Rule}
    (agent : Agent)
    (same : justify left rule.obligation = justify right rule.obligation) :
    ({ agent with obligations := left }.activation rule).value =
      ({ agent with obligations := right }.activation rule).value := by
  rw [value_activation, value_activation]
  simp only [must, same]
  rfl

/-- A pass depends on the memberships of formulas that are no constants. -/
theorem membership_renewedObligations_congr {agent : Agent}
    {left right : FactSet}
    (same : ∀ fact : Formula, fact.constant? = none →
      left.membership fact = right.membership fact) :
    (agent.renewedObligations left).membership =
      (agent.renewedObligations right).membership := by
  have sameSupport := justify_congr same
  funext fact
  apply FuzzySet.membership_eq_of_le_iff
  intro level positive
  rw [le_membership_renewedObligations_iff positive,
    le_membership_renewedObligations_iff positive]
  simp only [value_activation_congr agent (sameSupport _), sameSupport]

/-- The obligations after so many passes from none up. -/
def obligationsAfter (agent : Agent) (passes : Nat) : FactSet :=
  agent.renewedObligations^[passes] FactSet.empty

theorem obligationsAfter_succ (agent : Agent) (passes : Nat) :
    agent.obligationsAfter (passes + 1) =
      agent.renewedObligations (agent.obligationsAfter passes) :=
  Function.iterate_succ_apply' _ _ _

theorem membership_obligationsAfter_zero (agent : Agent) (fact : Formula) :
    (agent.obligationsAfter 0).membership fact = Degree.zero :=
  rfl

/-- Only consequents become obligations. -/
theorem exists_rule_of_membership_pos {agent : Agent} {passes : Nat}
    {fact : Formula}
    (positive : 0 < ((agent.obligationsAfter passes).membership fact).units) :
    ∃ rule ∈ agent.obligationRules.rules, rule.consequent = fact := by
  cases passes with
  | zero =>
      rw [membership_obligationsAfter_zero, Degree.units_zero] at positive
      omega
  | succ passes =>
      rw [obligationsAfter_succ] at positive
      obtain ⟨rule, present, concludes, _⟩ :=
        (le_membership_renewedObligations_iff positive).mp (Nat.le_refl _)
      exact ⟨rule, present, concludes⟩

theorem membership_obligationsAfter_le_succ {agent : Agent} (passes : Nat)
    {fact : Formula} (nonconstant : fact.constant? = none) :
    (agent.obligationsAfter passes).membership fact ≤
      (agent.obligationsAfter (passes + 1)).membership fact := by
  apply Degree.le_of_pos
  intro positive
  obtain ⟨rule, present, concludes⟩ := exists_rule_of_membership_pos positive
  rw [obligationsAfter_succ]
  apply (le_membership_renewedObligations_iff positive).mpr
  exact ⟨rule, present, concludes,
    .inr (membership_le_justify _ nonconstant)⟩

/-- The degrees that the passes over the obligation rules start from: zero, what
activates the rules besides obligations, and the constants that support looks
at. -/
def obligationSources (agent : Agent) : List Degree :=
  Degree.zero :: agent.obligationRules.rules.flatMap fun rule =>
    [(agent.knows rule.knowledge).value, (agent.believes rule.belief).value,
      agent.desires rule.desire] ++
      (rule.obligation.constants ++ rule.consequent.constants)

section

variable {agent : Agent} {rule : Rule}
  (present : rule ∈ agent.obligationRules.rules)

include present

theorem mem_obligationSources {degree : Degree}
    (member : degree ∈ [(agent.knows rule.knowledge).value,
        (agent.believes rule.belief).value, agent.desires rule.desire] ++
      (rule.obligation.constants ++ rule.consequent.constants)) :
    degree ∈ agent.obligationSources :=
  List.mem_cons_of_mem _ (List.mem_flatMap.mpr ⟨rule, present, member⟩)

theorem isAmong_activation {previous : FactSet}
    (supportAmong : (justify previous rule.obligation).IsAmong
      (Degree.withComplements agent.obligationSources)) :
    ({ agent with obligations := previous }.activation rule).value.IsAmong
      (Degree.withComplements agent.obligationSources) := by
  have sources : ∀ degree ∈ [(agent.knows rule.knowledge).value,
      (agent.believes rule.belief).value, agent.desires rule.desire],
      degree.IsAmong (Degree.withComplements agent.obligationSources) :=
    fun degree member => Degree.isAmong_withComplements
      (mem_obligationSources present (List.mem_append_left _ member))
  rw [value_activation]
  apply Degree.IsAmong.min _ supportAmong
  apply Degree.IsAmong.min
  · apply Degree.IsAmong.min
    · exact sources _ List.mem_cons_self
    · exact sources _ (List.mem_cons_of_mem _ List.mem_cons_self)
  · exact sources _
      (List.mem_cons_of_mem _ (List.mem_cons_of_mem _ List.mem_cons_self))

end

/-- No pass leaves the finite list of degrees. -/
theorem isAmong_membership_obligationsAfter {agent : Agent} (passes : Nat)
    {fact : Formula} (nonconstant : fact.constant? = none) :
    ((agent.obligationsAfter passes).membership fact).IsAmong
      (Degree.withComplements agent.obligationSources) := by
  have zeroSource : Degree.zero ∈ agent.obligationSources :=
    List.mem_cons_self
  induction passes generalizing fact with
  | zero => exact Degree.isAmong_withComplements zeroSource
  | succ passes ih =>
      have supportAmong : ∀ formula : Formula,
          formula.constants ⊆ agent.obligationSources →
            (justify (agent.obligationsAfter passes) formula).IsAmong
              (Degree.withComplements agent.obligationSources) :=
        fun _ => isAmong_justify zeroSource fun _ => ih
      rw [obligationsAfter_succ]
      by_cases positive : 0 < ((agent.renewedObligations
          (agent.obligationsAfter passes)).membership fact).units
      · -- The membership is the greatest of what its rules tell, so it is one
        -- of them.
        obtain ⟨rule, present, concludes, reached⟩ :=
          (le_membership_renewedObligations_iff positive).mp (Nat.le_refl _)
        rcases reached with active | supported
        · have told := (le_membership_renewedObligations_iff
            (Nat.lt_of_lt_of_le positive active)).mpr
              ⟨rule, present, concludes, .inl (Nat.le_refl _)⟩
          apply Degree.IsAmong.of_units_eq _ (Nat.le_antisymm told active)
          apply isAmong_activation present
          apply supportAmong
          intro degree member
          exact mem_obligationSources present
            (List.mem_append_right _ (List.mem_append_left _ member))
        · have told := (le_membership_renewedObligations_iff
            (Nat.lt_of_lt_of_le positive supported)).mpr
              ⟨rule, present, concludes, .inr (Nat.le_refl _)⟩
          apply Degree.IsAmong.of_units_eq _ (Nat.le_antisymm told supported)
          apply supportAmong
          intro degree member
          rw [← concludes] at member
          exact mem_obligationSources present
            (List.mem_append_right _ (List.mem_append_right _ member))
      · apply Degree.IsAmong.of_units_eq
          (Degree.isAmong_withComplements zeroSource)
        rw [Degree.units_zero]
        omega

/-- The pairs of a rule and one of the degrees that the membership of its
consequent reaches; constants are left out. -/
def attained (agent : Agent) (obligations : FactSet) : List (Rule × Degree) :=
  (agent.obligationRules.rules ×ˢ
    Degree.withComplements agent.obligationSources).filter
      fun (rule, degree) => rule.consequent.constant?.isNone &&
        degree ≤ obligations.membership rule.consequent

/-- How many pairs of a rule and a degree there are. -/
def attainable (agent : Agent) : Nat :=
  agent.obligationRules.size * (3 * agent.obligationSources.length)

theorem length_attained_le (agent : Agent) (obligations : FactSet) :
    (agent.attained obligations).length ≤ agent.attainable := by
  apply Nat.le_trans (List.length_filter_le _ _)
  rw [List.length_product, Degree.length_withComplements]
  exact Nat.le_refl _

theorem attained_sublist_succ (agent : Agent) (passes : Nat) :
    List.Sublist (agent.attained (agent.obligationsAfter passes))
      (agent.attained (agent.obligationsAfter (passes + 1))) := by
  apply List.monotone_filter_right
  intro ⟨rule, degree⟩ reached
  simp only [Bool.and_eq_true, Option.isNone_iff_eq_none,
    decide_eq_true_eq] at reached ⊢
  exact ⟨reached.1, Nat.le_trans reached.2
    (membership_obligationsAfter_le_succ passes reached.1)⟩

/-- A pass that attains nothing further changes constants at most. -/
theorem membership_obligationsAfter_eq_succ {agent : Agent} {passes : Nat}
    (stalled : agent.attained (agent.obligationsAfter (passes + 1)) =
      agent.attained (agent.obligationsAfter passes))
    {fact : Formula} (nonconstant : fact.constant? = none) :
    (agent.obligationsAfter passes).membership fact =
      (agent.obligationsAfter (passes + 1)).membership fact := by
  apply FuzzySet.membership_eq_of_le_iff
  intro level positive
  constructor
  · intro reached
    exact Nat.le_trans reached
      (membership_obligationsAfter_le_succ passes nonconstant)
  · intro reached
    obtain ⟨rule, present, concludes⟩ :=
      exists_rule_of_membership_pos (Nat.lt_of_lt_of_le positive reached)
    obtain ⟨known, isDegree, units⟩ :=
      isAmong_membership_obligationsAfter (passes + 1) nonconstant
    have later : (rule, known) ∈
        agent.attained (agent.obligationsAfter (passes + 1)) := by
      apply List.mem_filter.mpr
      refine ⟨List.mem_product.mpr ⟨present, isDegree⟩, ?_⟩
      simp [concludes, nonconstant, Degree.le_iff, units]
    rw [stalled] at later
    have earlier := (List.mem_filter.mp later).2
    simp only [concludes, Bool.and_eq_true, decide_eq_true_eq,
      Degree.le_iff, units] at earlier
    exact Nat.le_trans reached earlier.2

/-- After a pass that attains nothing further the next one changes nothing. -/
theorem membership_obligationsAfter_settled {agent : Agent} {passes : Nat}
    (stalled : agent.attained (agent.obligationsAfter (passes + 1)) =
      agent.attained (agent.obligationsAfter passes)) :
    (agent.obligationsAfter (passes + 2)).membership =
      (agent.obligationsAfter (passes + 1)).membership := by
  rw [obligationsAfter_succ agent (passes + 1),
    obligationsAfter_succ agent passes]
  apply membership_renewedObligations_congr
  intro fact nonconstant
  rw [← obligationsAfter_succ]
  exact (membership_obligationsAfter_eq_succ stalled nonconstant).symm

theorem attained_congr {agent : Agent} {left right : FactSet}
    (same : left.membership = right.membership) :
    agent.attained left = agent.attained right := by
  simp only [attained, same]

/-- The passes attain nothing further after as many passes as there are
pairs. -/
theorem attained_attainable_succ (agent : Agent) :
    agent.attained (agent.obligationsAfter (agent.attainable + 1)) =
      agent.attained (agent.obligationsAfter agent.attainable) := by
  apply stalled_of_ascending
    (fun passes => agent.attained (agent.obligationsAfter passes))
    agent.attained_sublist_succ fun _ => agent.length_attained_le _
  intro passes stalled
  exact attained_congr (membership_obligationsAfter_settled stalled)

/-- Two passes more than there are pairs are enough to settle. -/
theorem renewedObligations_settled (agent : Agent) :
    (agent.renewedObligations (agent.obligationsAfter (agent.attainable + 1))
      == agent.obligationsAfter (agent.attainable + 1)) = true := by
  rw [FuzzySet.beq_iff, ← obligationsAfter_succ]
  exact membership_obligationsAfter_settled agent.attained_attainable_succ

theorem onlyEnumerates_obligationPass (agent : Agent) :
    (obligationPass.runOn agent).OnlyEnumerates := by
  simp only [obligationPass, runOn_bind, runOn_get, pure_bind, resume_ok,
    runOn_lift, runOn_set, runOn_pure, bind_assoc]
  apply Inquiry.OnlyEnumerates.bind _ (Inquiry.OnlyEnumerates.pure _)
  apply Inquiry.OnlyEnumerates.foldlM
  intro result rule _
  exact (onlyEnumerates_activation agent rule).bind
    (Inquiry.OnlyEnumerates.pure _)

/-- The agent with another limit on the passes over its obligation rules. -/
def withObligationLimit (agent : Agent) (limit : Int) : Agent :=
  { agent with
    settings :=
      { agent.settings with
        deliberation :=
          { agent.settings.deliberation with
            maxObligationIterations := limit } } }

/-- Every limit that allows enough passes settles in the same obligations. -/
theorem settledObligations_withObligationLimit (agent : Agent) {limit : Int}
    (enough : ((agent.attainable + 2 : Nat) : Int) ≤ limit) :
    (agent.withObligationLimit limit).settledObligations =
      (true, (agent.withObligationLimit
        (agent.attainable + 2 : Nat)).settledObligations.2) := by
  let changes := fun obligations =>
    agent.renewedObligations obligations != obligations
  have unchanged : changes
      (agent.renewedObligations^[agent.attainable + 1] FactSet.empty) =
        false := by
    have settled := agent.renewedObligations_settled
    simp only [changes, bne, Bool.not_eq_false']
    exact settled
  have within : agent.attainable + 1 < limit.toNat := by omega
  have alsoWithin :
      agent.attainable + 1 < ((agent.attainable + 2 : Nat) : Int).toNat := by
    omega
  obtain ⟨earlier, _, stabilized⟩ := exists_stabilize_eq within _ unchanged
  have same := stabilize_eq_stabilize within alsoWithin _ unchanged
  change stabilize agent.renewedObligations changes limit.toNat
      FactSet.empty =
    (true, (stabilize agent.renewedObligations changes
      ((agent.attainable + 2 : Nat) : Int).toNat FactSet.empty).2)
  rw [← same, stabilized]

theorem runOn_updateObligations (agent : Agent) :
    updateObligations.runOn agent =
      (settle .obligation agent.settings.deliberation.maxObligationIterations
        obligationPass).runOn
          { agent with obligations := FactSet.empty } := by
  simp only [updateObligations, runOn_bind, runOn_modify, runOn_get, pure_bind,
    resume_ok]

/-- An update that settles ends without a complaint. -/
theorem updateObligations_of_settled {agent : Agent}
    (stable : agent.settledObligations.1 = true) :
    (updateObligations.runOn agent).value =
        (.ok (), { agent with obligations := agent.settledObligations.2 }) ∧
      (updateObligations.runOn agent).OnlyEnumerates := by
  have reached := value_untilStable_obligationPass agent
  rw [stable] at reached
  rw [runOn_updateObligations, runOn_settle_of_stable reached]
  constructor
  · rfl
  · exact (onlyEnumerates_untilStable onlyEnumerates_obligationPass _ _).bind
      (Inquiry.OnlyEnumerates.pure _)

/-- From pass to pass no obligation that is not a constant decreases.  There is
a number of passes such that under every limit that allows them the update
settles without a complaint, and in the same obligations. -/
theorem updateObligations_settles_whatever_limit (agent : Agent) :
    (∀ passes,
      (obligationPass.runOn
        { agent with obligations := agent.obligationsAfter passes }).value.2 =
          { agent with
            obligations := agent.obligationsAfter (passes + 1) } ∧
      ∀ fact : Formula, fact.constant? = none →
        (agent.obligationsAfter passes).membership fact ≤
          (agent.obligationsAfter (passes + 1)).membership fact) ∧
    ∃ (enough : Nat) (obligations : FactSet), ∀ limit : Int, enough ≤ limit →
      ((untilStable obligationPass limit.toNat).runOn
        { agent.withObligationLimit limit with
          obligations := agent.obligationsAfter 0 }).value =
        (.ok true, { agent.withObligationLimit limit with obligations }) ∧
      (updateObligations.runOn (agent.withObligationLimit limit)).value =
        (.ok (), { agent.withObligationLimit limit with obligations }) ∧
      (updateObligations.runOn
        (agent.withObligationLimit limit)).OnlyEnumerates := by
  constructor
  · intro passes
    constructor
    · rw [value_obligationPass, obligationsAfter_succ]
    · intro fact nonconstant
      exact membership_obligationsAfter_le_succ passes nonconstant
  · refine ⟨agent.attainable + 2, (agent.withObligationLimit
      (agent.attainable + 2 : Nat)).settledObligations.2, ?_⟩
    intro limit enough
    let capped := agent.withObligationLimit limit
    have settled := agent.settledObligations_withObligationLimit enough
    have reached : ((untilStable obligationPass limit.toNat).runOn
        { capped with obligations := FactSet.empty }).value =
          (.ok capped.settledObligations.1,
            { capped with obligations := capped.settledObligations.2 }) :=
      value_untilStable (value_obligationPass capped) limit.toNat FactSet.empty
    rw [settled] at reached
    have quiet := @runOn_settle_of_stable .obligation limit _ _ _ reached
    refine ⟨reached, ?_, ?_⟩
    · rw [runOn_updateObligations]
      change ((settle .obligation limit obligationPass).runOn _).value = _
      rw [quiet]
      rfl
    · rw [runOn_updateObligations]
      change ((settle .obligation limit obligationPass).runOn _).OnlyEnumerates
      rw [quiet]
      exact (onlyEnumerates_untilStable onlyEnumerates_obligationPass _ _).bind
        (Inquiry.OnlyEnumerates.pure _)

end Agent

end Possibilistic
