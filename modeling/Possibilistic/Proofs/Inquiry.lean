import Possibilistic.Inquiry

/-!
# What inquiries find and report

The value of an inquiry over a list lists the values of its parts.  The only
warning that a question of entailment gives is that a vast vocabulary was
enumerated; this is passed on by whatever is asked from such questions.
-/

namespace Possibilistic

namespace Inquiry

variable {α β : Type}

@[simp] theorem value_map (change : α → β) (inquiry : Inquiry α) :
    (change <$> inquiry).value = change inquiry.value :=
  rfl

@[simp] theorem checks_map (change : α → β) (inquiry : Inquiry α) :
    (change <$> inquiry).checks = inquiry.checks :=
  rfl

@[simp] theorem checks_warnAbove (limit : Int) (atoms : Nat) :
    (warnAbove limit atoms).checks = 0 := by
  rw [warnAbove]
  split <;> rfl

@[simp] theorem value_mapM (ask : α → Inquiry β) (items : List α) :
    (items.mapM ask).value = items.map fun item => (ask item).value := by
  induction items with
  | nil => rfl
  | cons item rest ih =>
      rw [List.mapM_cons]
      simp [ih]

@[simp] theorem value_foldlM (step : β → α → Inquiry β) (items : List α)
    (start : β) :
    (items.foldlM step start).value =
      items.foldl (fun result item => (step result item).value) start := by
  induction items generalizing start with
  | nil => rfl
  | cons item rest ih =>
      rw [List.foldlM_cons, value_bind, ih, List.foldl_cons]

/-- Every warning is of a vast vocabulary. -/
def OnlyEnumerates (inquiry : Inquiry α) : Prop :=
  ∀ warning ∈ inquiry.warnings, ∃ atoms, warning = .vastEnumeration atoms

namespace OnlyEnumerates

theorem pure (value : α) : (Pure.pure value : Inquiry α).OnlyEnumerates := by
  intro warning member
  cases member

theorem bind {inquiry : Inquiry α} {next : α → Inquiry β}
    (first : inquiry.OnlyEnumerates)
    (rest : (next inquiry.value).OnlyEnumerates) :
    (inquiry >>= next).OnlyEnumerates := by
  intro warning member
  rw [warnings_bind] at member
  rcases List.mem_append.mp member with inFirst | inRest
  · exact first warning inFirst
  · exact rest warning inRest

theorem mapM {ask : α → Inquiry β} {items : List α}
    (each : ∀ item ∈ items, (ask item).OnlyEnumerates) :
    (items.mapM ask).OnlyEnumerates := by
  induction items with
  | nil => exact pure []
  | cons item rest ih =>
      rw [List.mapM_cons]
      apply bind (each item List.mem_cons_self)
      apply bind
      · exact ih fun other member => each other (List.mem_cons_of_mem _ member)
      · exact pure _

theorem foldlM {step : β → α → Inquiry β} {items : List α}
    (each : ∀ result, ∀ item ∈ items, (step result item).OnlyEnumerates)
    (start : β) : (items.foldlM step start).OnlyEnumerates := by
  induction items generalizing start with
  | nil => exact pure start
  | cons item rest ih =>
      rw [List.foldlM_cons]
      apply bind (each start item List.mem_cons_self)
      exact ih (fun result other member =>
        each result other (List.mem_cons_of_mem _ member)) _

end OnlyEnumerates

theorem onlyEnumerates_check : check.OnlyEnumerates := by
  intro warning member
  cases member

theorem onlyEnumerates_warnAbove (limit : Int) (atoms : Nat) :
    (warnAbove limit atoms).OnlyEnumerates := by
  simp only [warnAbove]
  split
  · intro warning member
    exact ⟨atoms, List.mem_singleton.mp member⟩
  · exact OnlyEnumerates.pure ()

end Inquiry

end Possibilistic
