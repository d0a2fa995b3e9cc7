import Possibilistic.Fault
import Possibilistic.World

/-!
# Inquiries

An inquiry is a value together with what it took to find it: the number of
entailment checks and the warnings, in order.  The cost never influences the
value.
-/

namespace Possibilistic

inductive Warning where
  /-- A vocabulary with so many atoms was enumerated. -/
  | vastEnumeration (atoms : Nat)
  /-- A phase of an agent's deliberation met its limit. -/
  | notSettled (agent : String) (phase : Phase) (iterations : Int)
deriving DecidableEq

def Warning.message : Warning → String
  | .vastEnumeration atoms =>
      "Enumerating 2^" ++ toString atoms ++ " interpretations: vocabulary is " ++
        "beyond the practical range of exhaustive reasoning."
  | .notSettled agent phase iterations =>
      "Agent '" ++ agent ++ "': " ++ phase.name ++
        " update did not converge within " ++ toString iterations ++
        " iterations; keeping the last state."

/-- A value with the checks and warnings that it took. -/
structure Inquiry (α : Type) where
  value : α
  checks : Nat
  warnings : List Warning

namespace Inquiry

instance : Monad Inquiry where
  pure value := ⟨value, 0, []⟩
  bind inquiry next :=
    let rest := next inquiry.value
    ⟨rest.value, inquiry.checks + rest.checks,
      inquiry.warnings ++ rest.warnings⟩

/-- One entailment check. -/
def check : Inquiry Unit :=
  ⟨(), 1, []⟩

def warn (warning : Warning) : Inquiry Unit :=
  ⟨(), 0, [warning]⟩

/-- Reports the enumeration of more atoms than a limit. -/
def warnAbove (limit : Int) (atoms : Nat) : Inquiry Unit :=
  if limit < atoms then warn (.vastEnumeration atoms) else pure ()

@[simp] theorem value_pure {α : Type} (value : α) :
    (pure value : Inquiry α).value = value :=
  rfl

@[simp] theorem checks_pure {α : Type} (value : α) :
    (pure value : Inquiry α).checks = 0 :=
  rfl

@[simp] theorem warnings_pure {α : Type} (value : α) :
    (pure value : Inquiry α).warnings = [] :=
  rfl

@[simp] theorem value_bind {α β : Type} (inquiry : Inquiry α)
    (next : α → Inquiry β) :
    (inquiry >>= next).value = (next inquiry.value).value :=
  rfl

@[simp] theorem checks_bind {α β : Type} (inquiry : Inquiry α)
    (next : α → Inquiry β) :
    (inquiry >>= next).checks =
      inquiry.checks + (next inquiry.value).checks :=
  rfl

@[simp] theorem warnings_bind {α β : Type} (inquiry : Inquiry α)
    (next : α → Inquiry β) :
    (inquiry >>= next).warnings =
      inquiry.warnings ++ (next inquiry.value).warnings :=
  rfl

instance : LawfulMonad Inquiry :=
  LawfulMonad.mk' Inquiry
    (by
      intro α x
      cases x
      simp [Functor.map])
    (by
      intro α β x f
      simp [bind, pure])
    (by
      intro α β γ x f g
      simp [bind, Nat.add_assoc])

end Inquiry

/-- The vocabulary's first worlds, with the warning that comes with the first
of them. -/
def World.taken (limit : Int) (atoms : List Atom) (most : Nat) :
    Inquiry (List Interpretation) := do
  if 0 < most then
    Inquiry.warnAbove limit atoms.length
  pure (World.firstWorlds atoms most)

end Possibilistic
