import Possibilistic.Datum.Acceptance

/-!
# Rule bases

A rule base holds each of its rules once, in order of arrival.
-/

namespace Possibilistic

/-- Rules, each once. -/
structure RuleBase where
  rules : List Rule
  nodup : rules.Nodup

namespace RuleBase

def empty : RuleBase :=
  ⟨[], List.nodup_nil⟩

/-- Adds a rule at the end, unless it is there. -/
def add (base : RuleBase) (rule : Rule) : RuleBase :=
  if present : rule ∈ base.rules then base
  else
    ⟨base.rules ++ [rule], List.nodup_append.mpr
      ⟨base.nodup, List.pairwise_singleton _ _, fun other member new isNew => by
        rw [List.mem_singleton.mp isNew]
        exact fun equality => present (equality ▸ member)⟩⟩

def remove (base : RuleBase) (rule : Rule) : RuleBase :=
  ⟨base.rules.erase rule, base.nodup.sublist List.erase_sublist⟩

def size (base : RuleBase) : Nat :=
  base.rules.length

/-- Adds offered rules one after the other. -/
def addAll (base : RuleBase) : List Datum → Except Fault RuleBase
  | [] => .ok base
  | offered :: rest => do
      addAll (base.add (← offered.asRule)) rest

def ofData (offered : List Datum) : Except Fault RuleBase :=
  empty.addAll offered

/-- Takes an offered rule out.  Data that are no rules are not there to be
taken out, but only in an empty base nothing has to be looked up. -/
def removeOffered (base : RuleBase) (offered : Datum) :
    Except Fault RuleBase :=
  if base.rules.isEmpty then .ok base
  else
    match offered with
    | .rule value => .ok (base.remove value)
    | .list _ | .interpretation _ => .error .notKey
    | _ => .ok base

def containsOffered (base : RuleBase) (offered : Datum) : Except Fault Bool :=
  match offered with
  | .rule value => .ok (base.rules.contains value)
  | .list _ | .interpretation _ => .error .notKey
  | _ => .ok false

/-- The vocabulary of the consequents. -/
def consequentAtoms (base : RuleBase) : List Atom :=
  Atom.vocabulary (base.rules.flatMap fun rule => rule.consequent.mentions)

/-- The same rules, in any order. -/
instance : BEq RuleBase :=
  ⟨fun left right =>
    left.size == right.size && left.rules.all right.rules.contains⟩

def text (base : RuleBase) : String :=
  "\x7b\n" ++
    ",\n".intercalate (base.rules.map fun rule => "  " ++ rule.text) ++
    "\n\x7d"

end RuleBase

end Possibilistic
