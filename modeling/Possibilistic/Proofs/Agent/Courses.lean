import Possibilistic.Agent.Revision
import Possibilistic.Proofs.Inquiry

/-!
# Running courses

Running a course of changes step by step: what a pure value, a sequence, a
state access, an inquiry and a fault do to an agent, and what its success says
about its parts.
-/

namespace Possibilistic

section

variable {α β : Type}

/-- What fails before an offer is accepted does not succeed. -/
theorem exists_of_bind_eq_ok {offered : Except Fault α}
    {next : α → Except Fault β} {result : β}
    (success : (offered >>= next) = .ok result) :
    ∃ value, offered = .ok value ∧ next value = .ok result := by
  cases offered with
  | error fault => cases success
  | ok value => exact ⟨value, rfl, success⟩

theorem exists_of_isOk {outcome : Except Fault α}
    (success : outcome.isOk = true) : ∃ value, outcome = .ok value := by
  cases outcome with
  | error fault => cases success
  | ok value => exact ⟨value, rfl⟩

/-- Something can be observed on a value only if there is one. -/
theorem exists_of_observed {outcome : Except Fault α} {observe : α → β}
    {seen : β} (observed : outcome.toOption.map observe = some seen) :
    ∃ value, outcome = .ok value ∧ observe value = seen := by
  cases outcome with
  | error fault => cases observed
  | ok value => exact ⟨value, rfl, Option.some.inj observed⟩

end

namespace Deliberation

variable {α β : Type}

/-- What follows a course, given its outcome and the agent it leaves. -/
def resume (next : α → Deliberation β) :
    Except Fault α × Agent → Inquiry (Except Fault β × Agent)
  | (.ok value, left) => (next value).runOn left
  | (.error fault, left) => pure (.error fault, left)

@[simp] theorem resume_ok (next : α → Deliberation β) (value : α)
    (left : Agent) :
    resume next (.ok value, left) = (next value).runOn left :=
  rfl

@[simp] theorem resume_error (next : α → Deliberation β) (fault : Fault)
    (left : Agent) :
    resume next (.error fault, left) = pure (.error fault, left) :=
  rfl

@[simp] theorem runOn_pure (value : α) (agent : Agent) :
    (pure value : Deliberation α).runOn agent = pure (.ok value, agent) :=
  rfl

@[simp] theorem runOn_bind (course : Deliberation α)
    (next : α → Deliberation β) (agent : Agent) :
    (course >>= next).runOn agent = course.runOn agent >>= resume next := by
  simp only [runOn, ExceptT.run_bind, StateT.run_bind]
  congr 1
  funext result
  obtain ⟨outcome, left⟩ := result
  cases outcome with
  | ok value => rfl
  | error fault => rfl

@[simp] theorem runOn_map (change : α → β) (course : Deliberation α)
    (agent : Agent) :
    (change <$> course).runOn agent =
      course.runOn agent >>= resume fun value => pure (change value) := by
  rw [← bind_pure_comp, runOn_bind]

@[simp] theorem runOn_get (agent : Agent) :
    (get : Deliberation Agent).runOn agent = pure (.ok agent, agent) :=
  rfl

@[simp] theorem runOn_set (agent other : Agent) :
    (set other : Deliberation PUnit).runOn agent = pure (.ok ⟨⟩, other) :=
  rfl

@[simp] theorem runOn_modify (change : Agent → Agent) (agent : Agent) :
    (modify change : Deliberation PUnit).runOn agent =
      pure (.ok ⟨⟩, change agent) :=
  rfl

@[simp] theorem runOn_lift (inquiry : Inquiry α) (agent : Agent) :
    (liftM inquiry : Deliberation α).runOn agent =
      inquiry >>= fun value => pure (.ok value, agent) := by
  simp [runOn, liftM, monadLift, MonadLift.monadLift, ExceptT.lift]

@[simp] theorem runOn_ofExcept (offered : Except Fault α) (agent : Agent) :
    (MonadExcept.ofExcept offered : Deliberation α).runOn agent =
      pure (offered, agent) := by
  cases offered with
  | ok value => rfl
  | error fault => rfl

/-- A sequence fails when one of its parts does. -/
theorem value_bind_eq_error_iff {course : Deliberation α}
    {next : α → Deliberation β} {agent left : Agent} {fault : Fault} :
    ((course >>= next).runOn agent).value = (.error fault, left) ↔
      (course.runOn agent).value = (.error fault, left) ∨
        ∃ value reached, (course.runOn agent).value = (.ok value, reached) ∧
          ((next value).runOn reached).value = (.error fault, left) := by
  rw [runOn_bind, Inquiry.value_bind]
  rcases (course.runOn agent).value with ⟨reason | value, reached⟩
  · simp
  · rw [resume_ok]
    constructor
    · intro failed
      exact .inr ⟨value, reached, rfl, failed⟩
    · rintro (failed | ⟨_, _, succeeded, failed⟩)
      · cases failed
      · cases succeeded
        exact failed

end Deliberation

end Possibilistic
