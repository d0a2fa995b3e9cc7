import Possibilistic.Agent.Program
import Possibilistic.Agent.Rendering
import Possibilistic.Agent.Revision

/-!
# An errand

An agent that believes in rain wants an umbrella.  When the forecast turns dry
it wants a walk, and shoes for it.  The report shows its state before and
after.
-/

namespace Possibilistic

namespace Errand

def raining : Formula :=
  .atom ⟨"raining"⟩

/-- A rule with one condition. -/
def ruleFor (modality : Modality) (condition : Formula) (desire : String) :
    Rule :=
  Rule.ofAntecedents (.atom ⟨desire⟩) fun other =>
    if other = modality then condition else Formula.top

def program : Program :=
  { beliefs :=
      [.tuple [.formula raining, .number (Decimal.round false ⟨7, -1⟩)]]
    desireRules :=
      [.rule (ruleFor .belief raining "umbrella"),
       .rule (ruleFor .belief (.neg raining) "walk"),
       .rule (ruleFor .desire (.atom ⟨"walk"⟩) "shoes")] }

/-- The forecast changes: it is quite certainly dry. -/
def forecast : Deliberation Unit :=
  Agent.updateBeliefs (.formula (.neg raining))
    (.number (Decimal.round false ⟨9, -1⟩))

/-- The paragraphs of the report. -/
def paragraphs : Except Fault (List String) := do
  let loaded := Agent.load "errand" program Settings.standard true
  let agent ← loaded.value
  let revision := forecast.runOn agent
  let (outcome, revised) := revision.value
  outcome
  pure
    [agent.summary, revised.summary, revised.text,
     "Entailment checks performed: " ++
       toString (loaded.checks + revision.checks),
     "✓ Basic agent example passed."]

/-- The lines of the report. -/
def lines : Except Fault (List String) := do
  pure ((← paragraphs).flatMap (·.splitOn "\n"))

end Errand

end Possibilistic
