import Possibilistic.Agent.Program
import Possibilistic.Agent.Revision

/-!
# Revision workloads

A workload revises fresh agents over growing vocabularies with random formulas
at random trust, and reports what every revision cost.  Randomness comes from a
script of draws that is repeated without end.
-/

namespace Possibilistic

/-- Numbers to draw from, again and again. -/
structure Script where
  draws : List Datum

namespace Workload

/-- A course that draws numbers.  The state counts the draws. -/
abbrev Chance := StateT Nat (Except Fault)

/-- The next draw of the script. -/
def draw (script : Script) : Chance Datum := do
  let used ← get
  set (used + 1)
  match script.draws[used % script.draws.length]? with
  | some value => pure value
  | none => throw .missingChoice

/-- The next draw times a number, rounded down. -/
def drawBelow (script : Script) (bound : Nat) : Chance Int := do
  match ← draw script with
  | .integer value => pure (value * bound)
  | offered =>
      let number ← MonadExcept.ofExcept offered.asNumber
      let scaled := number * (Binary64.ofInt? bound).getD Binary64.nan
      match scaled.floor? with
      | some value => pure value
      | none =>
          throw (if scaled = .nan then .unreadableNumber else .numberTooLarge)

/-- The position that an index means among so many elements; a negative index
counts from the end. -/
def position (size : Nat) (index : Int) : Except Fault Nat :=
  let position := if index < 0 then index + size else index
  if 0 ≤ position ∧ position < size then .ok position.toNat
  else .error .missingChoice

/-- The element of a list that an index means. -/
def choose {α : Type} (elements : List α) (index : Int) : Except Fault α := do
  match elements[← position elements.length index]? with
  | some element => .ok element
  | none => .error .missingChoice

/-- A random formula.  A draw below the bias makes it compound. -/
def randomFormula (script : Script) (atoms : List Atom) (bias : Datum) :
    (depth : Nat) → Chance Formula
  | 0 => throw .tooDeep
  | depth + 1 => do
      match (← draw script).below? bias with
      | none => throw .notOrdered
      | some true =>
          match ← drawBelow script 3 with
          | 0 => .neg <$> randomFormula script atoms bias depth
          | kind =>
              let left ← randomFormula script atoms bias depth
              let right ← randomFormula script atoms bias depth
              pure (if kind = 1 then left.conj right else left.disj right)
      | some false =>
          let index ← drawBelow script atoms.length
          .atom <$> MonadExcept.ofExcept (choose atoms index)

/-- No finished formula is nested deeper than this.  What grows from a place of
the script depends on the place alone, so a place that comes back inside itself
grows without end. -/
def depthLimit (script : Script) : Nat :=
  script.draws.length + 1

/-- A random formula and the number of draws that it took. -/
def formulaOf (script : Script) (atoms : List Atom) (bias : Datum) :
    Except Fault (Formula × Nat) :=
  (randomFormula script atoms bias (depthLimit script)).run 0

/-- The first letters of the alphabet as atoms. -/
def letters (count : Nat) : List Atom :=
  ("abcdefghijklmnopqrstuvwxyz".toList.take count).map fun letter =>
    ⟨String.singleton letter⟩

/-- The trust of a digit: a tenth times the digit. -/
def trustOf (digit : Int) : Except Fault Datum :=
  match Binary64.ofInt? digit with
  | some number => .ok (.number (Decimal.round false ⟨1, -1⟩ * number))
  | none => .error .numberTooLarge

def header : String :=
  "n\ti\tchecks\tcard"

/-- One revision: the revised agent and the line that reports it. -/
def reviseOnce (script : Script) (bias : Datum) (size number : Nat)
    (agent : Agent) : Chance (Agent × String) := do
  let formula ← randomFormula script (letters size) bias (depthLimit script)
  let digit ← drawBelow script 10
  let trust ← MonadExcept.ofExcept (trustOf digit)
  let revision := (Agent.updateBeliefs (.formula formula) trust).runOn agent
  let (outcome, revised) := revision.value
  MonadExcept.ofExcept outcome
  pure (revised, toString size ++ "\t" ++ toString number ++ "\t" ++
    toString revision.checks ++ "\t" ++ toString revised.beliefs.size)

/-- So many revisions of an agent. -/
def reviseOften (script : Script) (bias : Datum) (size : Nat) :
    (remaining number : Nat) → Agent → Chance (List String)
  | 0, _, _ => pure []
  | remaining + 1, number, agent => do
      let (revised, line) ← reviseOnce script bias size number agent
      let rest ← reviseOften script bias size remaining (number + 1) revised
      pure (line :: rest)

/-- The lines for a vocabulary of one size. -/
def linesFor (script : Script) (bias : Datum) (revisions size : Nat) :
    Chance (List String) := do
  let created := Agent.create ("bench-" ++ toString size) {} Settings.standard
    true
  let agent ← MonadExcept.ofExcept created.value
  reviseOften script bias size revisions 0 agent

/-- The report of a workload over vocabularies of one atom up to so many. -/
def report (script : Script) (bias : Datum) (maxAtoms revisions : Int) :
    Except Fault (List String) := do
  let lines ← ((List.range maxAtoms.toNat).mapM fun size =>
    linesFor script bias revisions.toNat (size + 1)).run' 0
  pure (header :: lines.flatten)

end Workload

end Possibilistic
