import Possibilistic.Agent.Program
import Possibilistic.Proofs.Agent.Preparation

/-!
# Interrupted deliberation

Strict deliberation breaks off in a phase when every pass that it may make
changes something.  It can also fail before it changes anything, when the
desires mention too many atoms, and in no other way.  An interruption restores
nothing: what the last pass made stays, with everything that the call put in
place before.
-/

namespace Possibilistic

/-- The limit on the passes of a phase. -/
def Settings.passLimit (settings : Settings) : Phase → Int
  | .desire => settings.deliberation.maxDesireIterations
  | .obligation => settings.deliberation.maxObligationIterations

theorem Distribution.uniform_ne_notSettled {limit maximum : Int}
    {atoms : List Atom} {degree : Degree} {phase : Phase} :
    uniform maximum atoms degree ≠ .error (.notSettled phase limit) := by
  intro failed
  simp only [uniform, vocabularyWithin] at failed
  split at failed <;> cases failed

namespace Agent

open Deliberation

/-- Each of so many passes from a start changes something. -/
def KeepsChanging {σ : Type} [BEq σ] (pass : σ → σ) (passes : Nat) (start : σ) :
    Prop :=
  ∀ count < passes, (pass (pass^[count] start) == pass^[count] start) = false

/-- How a phase that keeps changing its part of the agent leaves the agent. -/
def Interrupted (agent : Agent) : Phase → Agent → Prop
  | .desire, left =>
      let passes := (agent.settings.passLimit .desire).toNat
      ∃ start,
        Distribution.uniform agent.settings.logic.maxDistributionAtoms
          agent.desireRules.consequentAtoms Degree.zero = .ok start ∧
        KeepsChanging agent.improved passes start ∧
        left = { agent with utility := agent.improved^[passes] start }
  | .obligation, left =>
      ∃ desirous, (updateDesires.runOn agent).value = (.ok (), desirous) ∧
        let passes := (desirous.settings.passLimit .obligation).toNat
        KeepsChanging desirous.renewedObligations passes FactSet.empty ∧
        left =
          { desirous with
            obligations :=
              desirous.renewedObligations^[passes] FactSet.empty }

/-- A phase that repeats a pass on its part of the agent fails exactly when
the pass keeps changing this part in strict deliberation. -/
theorem settlement_stabilize_eq_error_iff {σ : Type} [BEq σ] {pass : σ → σ}
    {start : σ} {embed : σ → Agent} {settings : Settings} {phase : Phase}
    {limit : Int} {fault : Fault} {left : Agent} :
    let repeated :=
      stabilize pass (fun state => pass state != state) limit.toNat start
    (settlement settings phase limit repeated.1, embed repeated.2) =
        (.error fault, left) ↔
      settings.deliberation.strictConvergence = true ∧
        fault = .notSettled phase limit ∧
        KeepsChanging pass limit.toNat start ∧
        left = embed (pass^[limit.toNat] start) := by
  intro repeated
  have unsettled : ∀ state, repeated = (false, state) ↔
      KeepsChanging pass limit.toNat start ∧
        state = pass^[limit.toNat] start := by
    intro state
    simp only [repeated, stabilize_eq_false_iff, KeepsChanging, bne,
      Bool.not_eq_true']
  rw [Prod.mk.injEq, settlement_eq_error_iff]
  constructor
  · rintro ⟨⟨strict, unstable, reason⟩, shape⟩
    have ⟨changing, last⟩ :=
      (unsettled repeated.2).mp (Prod.ext unstable rfl)
    refine ⟨strict, reason, changing, ?_⟩
    rw [← last]
    exact shape.symm
  · rintro ⟨strict, reason, changing, shape⟩
    have iterated : repeated = (false, _) := (unsettled _).mpr ⟨changing, rfl⟩
    rw [iterated]
    exact ⟨⟨strict, rfl, reason⟩, shape.symm⟩

theorem value_updateDesires_eq_error_iff {agent left : Agent} {fault : Fault} :
    (updateDesires.runOn agent).value = (.error fault, left) ↔
      (Distribution.uniform agent.settings.logic.maxDistributionAtoms
          agent.desireRules.consequentAtoms Degree.zero = .error fault ∧
        left = agent) ∨
      agent.settings.deliberation.strictConvergence = true ∧
        fault = .notSettled .desire (agent.settings.passLimit .desire) ∧
        agent.Interrupted .desire left := by
  rw [value_updateDesires]
  simp only [Interrupted]
  cases Distribution.uniform agent.settings.logic.maxDistributionAtoms
      agent.desireRules.consequentAtoms Degree.zero with
  | error reason => simp [@eq_comm Agent]
  | ok start =>
      simp only [reduceCtorEq, false_and, false_or, Except.ok.injEq,
        exists_eq_left']
      exact @settlement_stabilize_eq_error_iff Distribution _ agent.improved
        start (fun utility => { agent with utility }) _ _ _ _ _

theorem value_updateObligations_eq_error_iff {agent left : Agent}
    {fault : Fault} :
    (updateObligations.runOn agent).value = (.error fault, left) ↔
      agent.settings.deliberation.strictConvergence = true ∧
        fault = .notSettled .obligation (agent.settings.passLimit .obligation) ∧
        KeepsChanging agent.renewedObligations
          (agent.settings.passLimit .obligation).toNat FactSet.empty ∧
        left =
          { agent with
            obligations :=
              agent.renewedObligations^[
                (agent.settings.passLimit .obligation).toNat]
                FactSet.empty } := by
  rw [value_updateObligations]
  exact @settlement_stabilize_eq_error_iff FactSet _ agent.renewedObligations
    FactSet.empty (fun obligations => { agent with obligations }) _ _ _ _ _

/-- Deliberation fails because the desires mention too many atoms, and then it
changes nothing, or because it is strict and a phase keeps changing its part. -/
theorem value_deliberate_eq_error_iff {agent left : Agent} {fault : Fault} :
    (deliberate.runOn agent).value = (.error fault, left) ↔
      (Distribution.uniform agent.settings.logic.maxDistributionAtoms
          agent.desireRules.consequentAtoms Degree.zero = .error fault ∧
        left = agent) ∨
      agent.settings.deliberation.strictConvergence = true ∧
        ∃ phase, fault = .notSettled phase (agent.settings.passLimit phase) ∧
          agent.Interrupted phase left := by
  rw [deliberate, value_bind_eq_error_iff, value_updateDesires_eq_error_iff]
  constructor
  · rintro ((tooMany | ⟨strict, reason, interrupted⟩) |
      ⟨_, desirous, desired, failed⟩)
    · exact .inl tooMany
    · exact .inr ⟨strict, .desire, reason, interrupted⟩
    · obtain ⟨start, _, _, shape⟩ := value_updateDesires_eq_ok_iff.mp desired
      -- The limits are still those of the agent that started to deliberate.
      have sameSettings : desirous.settings = agent.settings := by rw [shape]
      rcases value_bind_eq_error_iff.mp failed with obliging |
        ⟨_, settled, _, electing⟩
      · obtain ⟨strict, reason, changing, last⟩ :=
          value_updateObligations_eq_error_iff.mp obliging
        rw [sameSettings] at strict reason
        exact .inr ⟨strict, .obligation, reason, desirous, desired, changing,
          last⟩
      · rw [value_updateGoals] at electing
        cases electing
  · rintro (tooMany | ⟨strict, phase, reason, interrupted⟩)
    · exact .inl (.inl tooMany)
    · cases phase with
      | desire => exact .inl (.inr ⟨strict, reason, interrupted⟩)
      | obligation =>
          obtain ⟨desirous, desired, changing, last⟩ := interrupted
          obtain ⟨start, _, _, shape⟩ :=
            value_updateDesires_eq_ok_iff.mp desired
          have sameSettings : desirous.settings = agent.settings := by
            rw [shape]
          rw [← sameSettings] at strict reason
          have obliging := value_updateObligations_eq_error_iff.mpr
            ⟨strict, reason, changing, last⟩
          exact .inr ⟨(), desirous, desired,
            value_bind_eq_error_iff.mpr (.inl obliging)⟩

/-- An interruption changes nothing but the utility and, after the utility has
settled, the obligations. -/
theorem Interrupted.changes {agent left : Agent} {phase : Phase}
    (interrupted : agent.Interrupted phase left) :
    left =
        { agent with
          utility := left.utility
          obligations := left.obligations } ∧
      (phase = .desire → left.obligations = agent.obligations) := by
  cases phase with
  | desire =>
      obtain ⟨start, _, _, last⟩ := interrupted
      rw [last]
      exact ⟨rfl, fun _ => rfl⟩
  | obligation =>
      obtain ⟨desirous, desired, _, last⟩ := interrupted
      obtain ⟨start, _, _, shape⟩ := value_updateDesires_eq_ok_iff.mp desired
      rw [last, shape]
      exact ⟨rfl, nofun⟩

/-- A call does not settle exactly when its preparation is accepted and strict
deliberation is interrupted from there.  Nothing is restored then: the revised
beliefs and the new rules stay, and so does what the last pass made of the
utility or of the obligations.  Knowledge and goals are as they were. -/
theorem interrupted_call_keeps_last_pass (call : Call) (agent left : Agent)
    (phase : Phase) (limit : Int) :
    (call.course.runOn agent).value = (.error (.notSettled phase limit), left) ↔
      agent.settings.deliberation.strictConvergence = true ∧
      limit = agent.settings.passLimit phase ∧
      left.knowledge = agent.knowledge ∧
      left.goals = agent.goals ∧
      (phase = .desire → left.obligations = agent.obligations) ∧
      ∃ prepared, call.prepare agent = (.ok (), prepared) ∧
        prepared.Interrupted phase left ∧
        left.beliefs = prepared.beliefs ∧
        left.desireRules = prepared.desireRules ∧
        left.obligationRules = prepared.obligationRules := by
  rw [value_course_eq_error_iff]
  constructor
  · rintro (refused | ⟨prepared, preparation, failed⟩)
    · exact absurd refused prepare_ne_notSettled
    · have changes := prepare_changes preparation
      rcases value_deliberate_eq_error_iff.mp failed with ⟨tooMany, _⟩ |
        ⟨strict, other, reason, interrupted⟩
      · exact absurd tooMany Distribution.uniform_ne_notSettled
      · cases reason
        obtain ⟨shape, sameObligations⟩ := interrupted.changes
        rw [changes] at strict sameObligations
        have preparedSettings := congrArg settings changes
        have preparedKnowledge := congrArg knowledge changes
        have preparedGoals := congrArg goals changes
        have leftKnowledge := congrArg knowledge shape
        have leftGoals := congrArg goals shape
        have leftBeliefs := congrArg beliefs shape
        have leftDesires := congrArg desireRules shape
        have leftDuties := congrArg obligationRules shape
        exact ⟨strict, by rw [preparedSettings],
          leftKnowledge.trans preparedKnowledge, leftGoals.trans preparedGoals,
          sameObligations, prepared, preparation, interrupted, leftBeliefs,
          leftDesires, leftDuties⟩
  · rintro ⟨strict, within, _, _, _, prepared, preparation, interrupted, _⟩
    have sameSettings := congrArg settings (prepare_changes preparation)
    rw [← sameSettings] at strict within
    rw [within]
    exact .inr ⟨prepared, preparation, value_deliberate_eq_error_iff.mpr
      (.inr ⟨strict, phase, rfl, interrupted⟩)⟩

/-- The phase that broke off, and its limit. -/
def interruption? : Except Fault Unit → Option (Phase × Int)
  | .error (.notSettled phase limit) => some (phase, limit)
  | _ => none

theorem interruption?_eq_some_iff {outcome : Except Fault Unit} {phase : Phase}
    {limit : Int} :
    interruption? outcome = some (phase, limit) ↔
      outcome = .error (.notSettled phase limit) := by
  unfold interruption?
  split <;> simp_all

/-- A duty to bring wood, a wish for fire as far as one must bring wood, and a
wish for warmth as far as one desires fire.  The agent is loaded with a settled
utility, before it finds its duty.  The only pass after a report makes it desire
fire; it does not settle, since another would make it desire warmth.  The call
fails, and the agent goes on desiring fire. -/
theorem hear_keeps_unsettled_utility :
    let wood : Formula := .atom ⟨"wood"⟩
    let fire : Formula := .atom ⟨"fire"⟩
    let program : Program :=
      { desireRules :=
          [.rule { consequent := fire, obligation := wood },
            .rule { consequent := .atom ⟨"warmth"⟩, desire := fire }]
        obligationRules := [.rule { consequent := wood }] }
    let settings : Settings :=
      { deliberation := { maxDesireIterations := 1, strictConvergence := true } }
    ∃ agent left : Agent,
      (load "camper" program settings true).value = .ok agent ∧
      ((hear (.text "x") (.truth true)).runOn agent).value =
        (.error (.notSettled .desire 1), left) ∧
      agent.utility.degreeAt 1 = Degree.zero ∧
      left.utility.degreeAt 1 = Degree.one ∧
      (left.improved left.utility == left.utility) = false := by
  intro wood fire program settings
  have observed :
      (load "camper" program settings true).value.toOption.map
        (fun agent =>
          let heard := ((hear (.text "x") (.truth true)).runOn agent).value
          (interruption? heard.1, agent.utility.degreeAt 1,
            heard.2.utility.degreeAt 1,
            heard.2.improved heard.2.utility == heard.2.utility)) =
        some (some (.desire, 1), Degree.zero, Degree.one, false) := by
    decide +kernel
  obtain ⟨agent, loaded, seen⟩ := exists_of_observed observed
  simp only [Prod.mk.injEq, interruption?_eq_some_iff] at seen
  obtain ⟨interrupted, before, after, unsettled⟩ := seen
  exact ⟨agent, _, loaded, Prod.ext interrupted rfl, before, after, unsettled⟩

end Agent

end Possibilistic
