import Possibilistic.Interpretation
import Possibilistic.Rule.Basic
import Possibilistic.Text.Quoted

/-!
# Offered data

A loader may hand over anything where a degree, a formula or a rule is wanted.
A datum is what it handed over, before it is accepted or refused.  Diagnostics
name its kind and show it.
-/

namespace Possibilistic

inductive Datum where
  | nothing
  | truth (value : Bool)
  | integer (value : Int)
  | number (value : Binary64)
  | text (value : String)
  | list (items : List Datum)
  | tuple (items : List Datum)
  | atom (value : Atom)
  | formula (value : Formula)
  | fact (value : Formula)
  | interpretation (value : Interpretation)
  | rule (value : Rule)

namespace Datum

/-- The name of the kind of a datum. -/
def kind : Datum → String
  | .nothing => "NoneType"
  | .truth _ => "bool"
  | .integer _ => "int"
  | .number _ => "float"
  | .text _ => "str"
  | .list _ => "list"
  | .tuple _ => "tuple"
  | .atom _ => "Atom"
  | .formula _ => "Formula"
  | .fact _ => "Fact"
  | .interpretation _ => "Interpretation"
  | .rule _ => "Rule"

/-- An asserted formula as it is shown. -/
def factText (formula : Formula) : String :=
  "Fact(formula=Formula(" ++ formula.text ++ "))"

def ruleText (rule : Rule) : String :=
  "Rule(consequent=" ++ factText rule.consequent ++
    ", knowledge=" ++ factText rule.knowledge ++
    ", belief=" ++ factText rule.belief ++
    ", desire=" ++ factText rule.desire ++
    ", obligation=" ++ factText rule.obligation ++ ")"

mutual

/-- A datum as diagnostics show it. -/
def shown : Datum → String
  | .nothing => "None"
  | .truth true => "True"
  | .truth false => "False"
  | .integer value => toString value
  | .number value => value.text
  | .text value => Text.quoted value
  | .list items => "[" ++ ", ".intercalate (shownAll items) ++ "]"
  | .tuple [item] => "(" ++ item.shown ++ ",)"
  | .tuple items => "(" ++ ", ".intercalate (shownAll items) ++ ")"
  | .atom value => "Atom(name=" ++ Text.quoted value.name ++ ")"
  | .formula value => "Formula(" ++ value.text ++ ")"
  | .fact value => factText value
  | .interpretation value => "Interpretation" ++ value.text
  | .rule value => ruleText value

def shownAll : List Datum → List String
  | [] => []
  | item :: rest => item.shown :: shownAll rest

end

end Datum

end Possibilistic
