import Possibilistic.Agent.Basic

/-!
# Agents as text

A summary has one line for each part of the mental state; the full text shows
the parts themselves.
-/

namespace Possibilistic

namespace Agent

def levelsText (levels : List Degree) : String :=
  "[" ++ ", ".intercalate (levels.map Degree.text) ++ "]"

def goalText (agent : Agent) : String :=
  match agent.goals.elements with
  | goal :: _ => goal.text
  | [] => "—"

def summary (agent : Agent) : String :=
  "\n".intercalate
    ["Agent '" ++ agent.name ++ "'",
     "  Knowledge:    " ++ toString agent.knowledge.size ++ " fact(s)",
     "  Beliefs:      " ++ toString agent.beliefs.size ++
       " fact(s), levels " ++ levelsText agent.beliefs.levels,
     "  Rules:        " ++ toString agent.desireRules.size ++ " desire, " ++
       toString agent.obligationRules.size ++ " obligation",
     "  Obligations:  " ++ agent.obligations.text,
     "  Utility:      " ++ toString agent.utility.atoms.length ++
       " atom(s), levels " ++ levelsText agent.utility.levels,
     "  Goal:         " ++ agent.goalText]

def text (agent : Agent) : String :=
  "agent(" ++ agent.name ++ ")\n\x7b" ++
    "\n  knowledge\n  " ++ agent.knowledge.text ++
    "\n  beliefs\n  " ++ agent.beliefs.text ++
    "\n  obligation rules\n  " ++ agent.obligationRules.text ++
    "\n  desire rules\n  " ++ agent.desireRules.text ++
    "\n  obligations\n  " ++ agent.obligations.text ++
    "\n  utility\n  " ++ agent.utility.text ++
    "\n  goals\n  " ++ agent.goals.text ++
    "\n\x7d"

def shown (agent : Agent) : String :=
  "Agent(" ++ Text.quoted agent.name ++ ")"

end Agent

end Possibilistic
