import Mathlib.Logic.Function.Iterate
import Mathlib.Order.Monotone.Basic
import Possibilistic.Proofs.Agent.Courses

/-!
# Settling

A phase repeats a pass on one part of the agent.  What comes out is the part
after so many passes, the first that a pass does not change if there is one
within the limit.  Only a phase that meets its limit complains.
-/

namespace Possibilistic

namespace Deliberation

/-- Repeats a pure pass, at most so many times, until it changes nothing.  Tells
whether that happened. -/
def stabilize {σ : Type} (next : σ → σ) (changes : σ → Bool) :
    (passes : Nat) → σ → Bool × σ
  | 0, state => (false, state)
  | passes + 1, state =>
      if changes state then stabilize next changes passes (next state)
      else (true, next state)

/-- How a phase ends, given whether it became stable. -/
def settlement (settings : Settings) (phase : Phase) (limit : Int)
    (stable : Bool) : Except Fault Unit :=
  if stable || !settings.deliberation.strictConvergence then .ok ()
  else .error (.notSettled phase limit)

/-- Repetition stops at the first state that the pass does not change, when
that comes within the limit. -/
theorem exists_stabilize_eq {σ : Type} {next : σ → σ} {changes : σ → Bool}
    {passes count : Nat} (within : count < passes) (state : σ)
    (stable : changes (next^[count] state) = false) :
    ∃ earlier, changes (next^[earlier] state) = false ∧
      stabilize next changes passes state =
        (true, next^[earlier + 1] state) := by
  induction passes generalizing count state with
  | zero => omega
  | succ passes ih =>
      simp only [stabilize]
      cases changed : changes state with
      | false => exact ⟨0, changed, rfl⟩
      | true =>
          cases count with
          | zero =>
              rw [Function.iterate_zero, id_eq, changed] at stable
              cases stable
          | succ count =>
              rw [Function.iterate_succ_apply] at stable
              obtain ⟨earlier, settled, reached⟩ :=
                ih (Nat.lt_of_succ_lt_succ within) (next state) stable
              exact ⟨earlier + 1, settled, reached⟩

/-- What has settled is left by a pass within the limit that changed nothing. -/
theorem exists_of_stabilize_eq_true {σ : Type} {next : σ → σ}
    {changes : σ → Bool} {passes : Nat} {state : σ}
    (settled : (stabilize next changes passes state).1 = true) :
    ∃ count < passes, changes (next^[count] state) = false ∧
      (stabilize next changes passes state).2 = next^[count + 1] state := by
  induction passes generalizing state with
  | zero => cases settled
  | succ passes ih =>
      simp only [stabilize] at settled ⊢
      cases changed : changes state with
      | false => exact ⟨0, Nat.succ_pos passes, changed, rfl⟩
      | true =>
          rw [changed] at settled
          obtain ⟨count, within, stable, reached⟩ := ih settled
          exact ⟨count + 1, Nat.succ_lt_succ within, stable, reached⟩

/-- Once a limit is enough, a greater one makes no difference. -/
theorem stabilize_eq_stabilize {σ : Type} {next : σ → σ} {changes : σ → Bool}
    {passes others count : Nat} (within : count < passes)
    (alsoWithin : count < others) (state : σ)
    (stable : changes (next^[count] state) = false) :
    stabilize next changes passes state =
      stabilize next changes others state := by
  induction passes generalizing others count state with
  | zero => omega
  | succ passes ih =>
      cases others with
      | zero => omega
      | succ others =>
          simp only [stabilize]
          cases changed : changes state with
          | false => rfl
          | true =>
              cases count with
              | zero =>
                  rw [Function.iterate_zero, id_eq, changed] at stable
                  cases stable
              | succ count =>
                  rw [Function.iterate_succ_apply] at stable
                  exact ih (Nat.lt_of_succ_lt_succ within)
                    (Nat.lt_of_succ_lt_succ alsoWithin) (next state) stable

/-- Repetition does not settle when every pass within the limit changes the
state, and then it ends after the last of them. -/
theorem stabilize_eq_false_iff {σ : Type} {next : σ → σ} {changes : σ → Bool}
    {passes : Nat} {state left : σ} :
    stabilize next changes passes state = (false, left) ↔
      (∀ count < passes, changes (next^[count] state) = true) ∧
        left = next^[passes] state := by
  induction passes generalizing state with
  | zero =>
      simp only [stabilize, Prod.mk.injEq, true_and, Nat.not_lt_zero,
        false_implies, implies_true, Function.iterate_zero, id_eq]
      exact eq_comm
  | succ passes ih =>
      simp only [stabilize, Nat.forall_lt_succ_left,
        Function.iterate_succ_apply, Function.iterate_zero, id_eq]
      cases changes state with
      | true => simpa using ih
      | false => simp

/-- A phase fails when it does not settle in strict deliberation. -/
theorem settlement_eq_error_iff {settings : Settings} {phase : Phase}
    {limit : Int} {stable : Bool} {fault : Fault} :
    settlement settings phase limit stable = .error fault ↔
      settings.deliberation.strictConvergence = true ∧ stable = false ∧
        fault = .notSettled phase limit := by
  unfold settlement
  cases stable with
  | true => simp
  | false =>
      cases settings.deliberation.strictConvergence with
      | true => simp [@eq_comm Fault]
      | false => simp

/-- Lists that ascend, and no longer ascend after they have stalled once, have
stalled after as many steps as they can have places. -/
theorem stalled_of_ascending {α : Type} (lists : Nat → List α) {places : Nat}
    (ascending : ∀ step, List.Sublist (lists step) (lists (step + 1)))
    (bounded : ∀ step, (lists step).length ≤ places)
    (stalls : ∀ step, lists (step + 1) = lists step →
      lists (step + 2) = lists (step + 1)) :
    lists (places + 1) = lists places := by
  have same_of_length : ∀ step,
      (lists step).length = (lists (step + 1)).length →
        lists (step + 1) = lists step :=
    fun step sameLength => ((ascending step).eq_of_length sameLength).symm
  apply same_of_length
  apply Eq.symm
  apply Nat.stabilises_of_monotone (f := fun step => (lists step).length)
  · exact monotone_nat_of_le_succ fun step => (ascending step).length_le
  · exact bounded
  · intro step sameLength
    exact congrArg List.length (stalls step (same_of_length step sameLength)).symm
  · exact Nat.le_succ _

/-- What every pass keeps is kept. -/
theorem stabilize_keeps {σ : Type} {property : σ → Prop} {next : σ → σ}
    {changes : σ → Bool} (kept : ∀ state, property state → property (next state))
    (passes : Nat) {state : σ} (start : property state) :
    property (stabilize next changes passes state).2 := by
  induction passes generalizing state with
  | zero => exact start
  | succ passes ih =>
      simp only [stabilize]
      cases changes state with
      | true => exact ih (kept state start)
      | false => exact kept state start

/-- Passes that keep states related, and notice changes alike, settle alike. -/
theorem stabilize_related {σ : Type} {related : σ → σ → Prop}
    {next otherNext : σ → σ} {changes otherChanges : σ → Bool}
    (preserved : ∀ state other, related state other →
      related (next state) (otherNext other))
    (noticed : ∀ state other, related state other →
      changes state = otherChanges other)
    (passes : Nat) {state other : σ} (start : related state other) :
    (stabilize next changes passes state).1 =
        (stabilize otherNext otherChanges passes other).1 ∧
      related (stabilize next changes passes state).2
        (stabilize otherNext otherChanges passes other).2 := by
  induction passes generalizing state other with
  | zero => exact ⟨rfl, start⟩
  | succ passes ih =>
      have nextRelated := preserved state other start
      simp only [stabilize, noticed state other start]
      cases otherChanges other with
      | true => exact ih nextRelated
      | false => exact ⟨rfl, nextRelated⟩

section

variable {σ : Type} {pass : Deliberation Bool} {embed : σ → Agent}
  {next : σ → σ} {changes : σ → Bool}
  (step : ∀ state, (pass.runOn (embed state)).value =
    (.ok (changes state), embed (next state)))

include step

theorem value_untilStable (passes : Nat) (state : σ) :
    ((untilStable pass passes).runOn (embed state)).value =
      (.ok (stabilize next changes passes state).1,
        embed (stabilize next changes passes state).2) := by
  induction passes generalizing state with
  | zero => rfl
  | succ passes ih =>
      simp only [untilStable, runOn_bind, Inquiry.value_bind, step, resume_ok,
        stabilize]
      cases changes state with
      | false => rfl
      | true => exact ih (next state)

/-- A phase that repeats a pass on a part of the agent changes this part only,
whether it settles or not. -/
theorem value_settle (phase : Phase) (limit : Int) (state : σ) :
    ((settle phase limit pass).runOn (embed state)).value =
      (settlement
          (embed (stabilize next changes limit.toNat state).2).settings
          phase limit (stabilize next changes limit.toNat state).1,
        embed (stabilize next changes limit.toNat state).2) := by
  simp only [settle, runOn_bind, Inquiry.value_bind, value_untilStable step,
    resume_ok]
  cases (stabilize next changes limit.toNat state).1 with
  | true => rfl
  | false =>
      generalize embed (stabilize next changes limit.toNat state).2 = left
      simp only [Bool.false_eq_true, if_false, meetLimit, settlement,
        runOn_bind, runOn_get, pure_bind, resume_ok, Bool.false_or]
      cases left.settings.deliberation.strictConvergence with
      | true => rfl
      | false => simp

end

theorem onlyEnumerates_untilStable {pass : Deliberation Bool}
    (passEnumerates : ∀ agent, (pass.runOn agent).OnlyEnumerates)
    (passes : Nat) (agent : Agent) :
    ((untilStable pass passes).runOn agent).OnlyEnumerates := by
  induction passes generalizing agent with
  | zero => exact Inquiry.OnlyEnumerates.pure _
  | succ passes ih =>
      rw [untilStable, runOn_bind]
      apply (passEnumerates agent).bind
      cases outcome : (pass.runOn agent).value with
      | mk result left =>
          cases result with
          | error fault => exact Inquiry.OnlyEnumerates.pure _
          | ok changed =>
              cases changed with
              | true => exact ih left
              | false => exact Inquiry.OnlyEnumerates.pure _

/-- Settling a pass that becomes stable does nothing else. -/
theorem runOn_settle_of_stable {phase : Phase} {limit : Int}
    {pass : Deliberation Bool} {agent settled : Agent}
    (stable : ((untilStable pass limit.toNat).runOn agent).value =
      (.ok true, settled)) :
    (settle phase limit pass).runOn agent =
      (untilStable pass limit.toNat).runOn agent >>= fun _ =>
        pure (.ok (), settled) := by
  rw [settle, runOn_bind]
  change Inquiry.mk _ _ _ = Inquiry.mk _ _ _
  simp only [stable]
  rfl

end Deliberation

end Possibilistic
