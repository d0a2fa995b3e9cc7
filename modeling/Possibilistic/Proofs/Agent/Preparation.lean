import Possibilistic.Proofs.Agent.Repetition
import Possibilistic.Proofs.Agent.Revision

/-!
# Calls and their preparation

A call looks at what it is offered, puts revised beliefs or other rules in
place, and then lets the agent deliberate.  What comes before the deliberation
is its preparation.  A call fails in the preparation, and then it goes no
further, or in the deliberation, which starts from the prepared agent.
-/

namespace Possibilistic

section

variable {offered : Datum} {phase : Phase} {limit : Int}

theorem Datum.asFact_ne_notSettled :
    offered.asFact ≠ .error (.notSettled phase limit) := by
  cases offered <;> nofun

theorem Datum.asDegreeOf_ne_notSettled {number : Binary64} :
    offered.asDegreeOf number ≠ .error (.notSettled phase limit) := by
  unfold asDegreeOf
  split <;> nofun

theorem Datum.asDegree_ne_notSettled :
    offered.asDegree ≠ .error (.notSettled phase limit) := by
  unfold asDegree
  split
  · nofun
  · nofun
  · split
    · exact asDegreeOf_ne_notSettled
    · nofun
  · exact asDegreeOf_ne_notSettled
  · split
    · exact asDegreeOf_ne_notSettled
    · nofun
  · nofun

theorem Datum.asDegreeFor_ne_notSettled {label : String} :
    offered.asDegreeFor label ≠ .error (.notSettled phase limit) := by
  unfold asDegreeFor
  split
  · nofun
  · exact asDegree_ne_notSettled

theorem RuleBase.addAll_ne_notSettled {base : RuleBase} {rules : List Datum} :
    base.addAll rules ≠ .error (.notSettled phase limit) := by
  induction rules generalizing base with
  | nil => nofun
  | cons datum rest ih =>
      cases datum with
      | rule value => exact ih
      | _ => nofun

end

namespace Agent

open Deliberation

/-- What may be asked of an agent to change its mind. -/
inductive Call where
  | updateBeliefs (fact trust : Datum)
  | hear (fact truth : Datum)
  | replaceRules (desireRules obligationRules : Option (List Datum))

def Call.course : Call → Deliberation Unit
  | .updateBeliefs fact trust => Agent.updateBeliefs fact trust
  | .hear fact truth => Agent.hear fact truth
  | .replaceRules desireRules obligationRules =>
      Agent.replaceRules desireRules obligationRules

/-- An offered fact and its degree, looking at the fact first. -/
def acceptGraded (label : String) (fact degree : Datum) :
    Except Fault (Formula × Degree) := do
  let fact ← fact.asFact
  pure (fact, ← degree.asDegreeFor label)

/-- The rules in force after an offer; without one the present rules stay. -/
def acceptRules (present : RuleBase) :
    Option (List Datum) → Except Fault RuleBase
  | none => .ok present
  | some offered => RuleBase.ofData offered

/-- Whether a call is accepted, and the agent before it deliberates. -/
def Call.prepare (agent : Agent) : Call → Except Fault Unit × Agent
  | .updateBeliefs fact trust =>
      match acceptGraded "trust" fact trust with
      | .error fault => (.error fault, agent)
      | .ok (evidence, degree) =>
          (.ok (), { agent with beliefs := agent.revision evidence degree })
  | .hear fact truth =>
      match acceptGraded "truth" fact truth with
      | .error fault => (.error fault, agent)
      | .ok _ => (.ok (), agent)
  | .replaceRules desireRules obligationRules =>
      match acceptRules agent.desireRules desireRules with
      | .error fault => (.error fault, agent)
      | .ok desireRules =>
          match acceptRules agent.obligationRules obligationRules with
          | .error fault => (.error fault, { agent with desireRules })
          | .ok obligationRules =>
              (.ok (), { agent with desireRules, obligationRules })

/-- A deliberation that follows a preparation. -/
def deliberateFrom : Except Fault Unit × Agent → Except Fault Unit × Agent
  | (.ok _, prepared) => (deliberate.runOn prepared).value
  | (.error fault, left) => (.error fault, left)

theorem runOn_acceptGraded_bind (label : String) (fact degree : Datum)
    (next : Formula → Degree → Deliberation Unit) (agent : Agent) :
    ((do
        let fact ← MonadExcept.ofExcept fact.asFact
        let degree ← MonadExcept.ofExcept (degree.asDegreeFor label)
        next fact degree : Deliberation Unit).runOn agent).value =
      match acceptGraded label fact degree with
      | .error fault => (.error fault, agent)
      | .ok (fact, degree) => ((next fact degree).runOn agent).value := by
  simp only [acceptGraded, runOn_bind, runOn_ofExcept, pure_bind]
  cases fact.asFact with
  | error fault => rfl
  | ok formula =>
      simp only [resume_ok, runOn_bind, runOn_ofExcept, pure_bind]
      cases degree.asDegreeFor label with
      | error fault => rfl
      | ok value => rfl

/-- A call is its preparation followed by a deliberation. -/
theorem value_course (call : Call) (agent : Agent) :
    (call.course.runOn agent).value = deliberateFrom (call.prepare agent) := by
  cases call with
  | updateBeliefs fact trust =>
      simp only [Call.course, updateBeliefs, Call.prepare,
        runOn_acceptGraded_bind]
      cases acceptGraded "trust" fact trust with
      | error fault => rfl
      | ok graded =>
          simp only [runOn_bind, Inquiry.value_bind, value_reviseBeliefs]
          rfl
  | hear fact truth =>
      simp only [Call.course, hear, Call.prepare, runOn_acceptGraded_bind]
      cases acceptGraded "truth" fact truth with
      | error fault => rfl
      | ok graded => rfl
  | replaceRules desireRules obligationRules =>
      cases desireRules with
      | none =>
          cases obligationRules with
          | none => rfl
          | some offered =>
              simp only [Call.course, Call.prepare, acceptRules]
              unfold replaceRules
              simp only [runOn_bind, runOn_ofExcept, pure_bind]
              cases RuleBase.ofData offered with
              | error fault => rfl
              | ok rules => rfl
      | some offered =>
          simp only [Call.course, Call.prepare, acceptRules]
          unfold replaceRules
          simp only [runOn_bind, runOn_ofExcept, pure_bind]
          cases RuleBase.ofData offered with
          | error fault => rfl
          | ok rules =>
              cases obligationRules with
              | none => rfl
              | some others =>
                  simp only [resume_ok, runOn_bind, runOn_ofExcept,
                    runOn_modify, pure_bind]
                  cases RuleBase.ofData others with
                  | error fault => rfl
                  | ok otherRules => rfl

/-- A call succeeds when its preparation and the deliberation do. -/
theorem value_course_eq_ok_iff {call : Call} {agent next : Agent} :
    (call.course.runOn agent).value = (.ok (), next) ↔
      ∃ prepared, call.prepare agent = (.ok (), prepared) ∧
        (deliberate.runOn prepared).value = (.ok (), next) := by
  rw [value_course]
  rcases call.prepare agent with ⟨fault | _, prepared⟩
  · simp [deliberateFrom]
  · simp [deliberateFrom]

/-- A call fails when its preparation or the deliberation does. -/
theorem value_course_eq_error_iff {call : Call} {agent left : Agent}
    {fault : Fault} :
    (call.course.runOn agent).value = (.error fault, left) ↔
      call.prepare agent = (.error fault, left) ∨
        ∃ prepared, call.prepare agent = (.ok (), prepared) ∧
          (deliberate.runOn prepared).value = (.error fault, left) := by
  rw [value_course]
  rcases call.prepare agent with ⟨reason | _, prepared⟩
  · simp [deliberateFrom]
  · simp [deliberateFrom]

section

variable {phase : Phase} {limit : Int}

theorem acceptGraded_ne_notSettled {label : String} {fact degree : Datum} :
    acceptGraded label fact degree ≠ .error (.notSettled phase limit) := by
  intro refused
  simp only [acceptGraded] at refused
  cases isFact : fact.asFact with
  | error fault =>
      rw [isFact] at refused
      cases refused
      exact Datum.asFact_ne_notSettled isFact
  | ok formula =>
      cases isDegree : degree.asDegreeFor label with
      | error fault =>
          rw [isFact, isDegree] at refused
          cases refused
          exact Datum.asDegreeFor_ne_notSettled isDegree
      | ok value =>
          rw [isFact, isDegree] at refused
          cases refused

theorem acceptRules_ne_notSettled {present : RuleBase}
    {offered : Option (List Datum)} :
    acceptRules present offered ≠ .error (.notSettled phase limit) := by
  cases offered with
  | none => nofun
  | some rules => exact RuleBase.addAll_ne_notSettled

/-- A preparation fails only when an offer is refused. -/
theorem prepare_ne_notSettled {call : Call} {agent left : Agent} :
    call.prepare agent ≠ (.error (.notSettled phase limit), left) := by
  intro failed
  cases call with
  | updateBeliefs fact trust =>
      simp only [Call.prepare] at failed
      split at failed
      · rename_i refused
        cases failed
        exact acceptGraded_ne_notSettled refused
      · cases failed
  | hear fact truth =>
      simp only [Call.prepare] at failed
      split at failed
      · rename_i refused
        cases failed
        exact acceptGraded_ne_notSettled refused
      · cases failed
  | replaceRules desireRules obligationRules =>
      simp only [Call.prepare] at failed
      split at failed
      · rename_i refused
        cases failed
        exact acceptRules_ne_notSettled refused
      · split at failed
        · rename_i refused
          cases failed
          exact acceptRules_ne_notSettled refused
        · cases failed

end

/-- A preparation changes nothing but the beliefs and the rules. -/
theorem prepare_changes {call : Call} {agent prepared : Agent}
    {outcome : Except Fault Unit}
    (preparation : call.prepare agent = (outcome, prepared)) :
    prepared =
      { agent with
        beliefs := prepared.beliefs
        desireRules := prepared.desireRules
        obligationRules := prepared.obligationRules } := by
  cases call with
  | updateBeliefs fact trust =>
      simp only [Call.prepare] at preparation
      split at preparation <;> cases preparation <;> rfl
  | hear fact truth =>
      simp only [Call.prepare] at preparation
      split at preparation <;> cases preparation <;> rfl
  | replaceRules desireRules obligationRules =>
      simp only [Call.prepare] at preparation
      split at preparation
      · cases preparation
        rfl
      · split at preparation <;> cases preparation <;> rfl

end Agent

end Possibilistic
