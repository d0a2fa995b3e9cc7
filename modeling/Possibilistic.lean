import Possibilistic.Agent.Basic
import Possibilistic.Agent.Deliberation
import Possibilistic.Agent.Program
import Possibilistic.Agent.Rendering
import Possibilistic.Agent.Revision
import Possibilistic.ArrivalMap
import Possibilistic.Atom
import Possibilistic.Binary64.Basic
import Possibilistic.Binary64.Rounding
import Possibilistic.CheckCount
import Possibilistic.Cube.Basic
import Possibilistic.Cube.Minimization
import Possibilistic.Datum.Acceptance
import Possibilistic.Datum.Basic
import Possibilistic.Datum.Comparison
import Possibilistic.Degree
import Possibilistic.Distribution
import Possibilistic.Errand
import Possibilistic.FactBase.Basic
import Possibilistic.FactBase.Necessity
import Possibilistic.FactSet.Basic
import Possibilistic.FactSet.Grid
import Possibilistic.Fault
import Possibilistic.Formula.Basic
import Possibilistic.Formula.Construction
import Possibilistic.Formula.NegationNormal
import Possibilistic.FuzzySet
import Possibilistic.Inquiry
import Possibilistic.Interpretation
import Possibilistic.Main
import Possibilistic.NormalForm.Conjunction
import Possibilistic.NormalForm.Disjunctive
import Possibilistic.Numeral.Decimal
import Possibilistic.Numeral.Layout
import Possibilistic.Numeral.Reading
import Possibilistic.Numeral.Shortest
import Possibilistic.Proofs.Agent.Acceptance
import Possibilistic.Proofs.Agent.Activation
import Possibilistic.Proofs.Agent.Alike
import Possibilistic.Proofs.Agent.Calls
import Possibilistic.Proofs.Agent.Candidates
import Possibilistic.Proofs.Agent.Courses
import Possibilistic.Proofs.Agent.Desires
import Possibilistic.Proofs.Agent.Election
import Possibilistic.Proofs.Agent.Goals
import Possibilistic.Proofs.Agent.Interruption
import Possibilistic.Proofs.Agent.Justification
import Possibilistic.Proofs.Agent.Obligations
import Possibilistic.Proofs.Agent.Order
import Possibilistic.Proofs.Agent.Phases
import Possibilistic.Proofs.Agent.Preparation
import Possibilistic.Proofs.Agent.Rebuilding
import Possibilistic.Proofs.Agent.Refusal
import Possibilistic.Proofs.Agent.Repetition
import Possibilistic.Proofs.Agent.Rescaling
import Possibilistic.Proofs.Agent.Revision
import Possibilistic.Proofs.Agent.Settling
import Possibilistic.Proofs.Agent.States
import Possibilistic.Proofs.Agent.Validation
import Possibilistic.Proofs.Atom.Vocabulary
import Possibilistic.Proofs.Binary64.Monotone
import Possibilistic.Proofs.Binary64.Nearness
import Possibilistic.Proofs.Cube.Completion
import Possibilistic.Proofs.Cube.Cover
import Possibilistic.Proofs.Cube.Maximality
import Possibilistic.Proofs.Cube.Meaning
import Possibilistic.Proofs.Cube.Merging
import Possibilistic.Proofs.Cube.MinimalForm
import Possibilistic.Proofs.Cube.Primes
import Possibilistic.Proofs.Degree.Arithmetic
import Possibilistic.Proofs.Degree.Complement
import Possibilistic.Proofs.Degree.Extremes
import Possibilistic.Proofs.Degree.Involution
import Possibilistic.Proofs.Distribution.Comparison
import Possibilistic.Proofs.Distribution.Description
import Possibilistic.Proofs.Distribution.Measures
import Possibilistic.Proofs.FactBase.Assertion
import Possibilistic.Proofs.FactBase.Classical
import Possibilistic.Proofs.FactBase.Congruence
import Possibilistic.Proofs.FactBase.Cuts
import Possibilistic.Proofs.FactBase.Entailment
import Possibilistic.Proofs.FactBase.Irredundance
import Possibilistic.Proofs.FactBase.Necessity
import Possibilistic.Proofs.FactBase.Possibility
import Possibilistic.Proofs.FactBase.Reports
import Possibilistic.Proofs.FactBase.Simplification
import Possibilistic.Proofs.FactSet.Exclusion
import Possibilistic.Proofs.FactSet.Telling
import Possibilistic.Proofs.FactSet.Truth
import Possibilistic.Proofs.Formula.Classical
import Possibilistic.Proofs.Formula.Expansion
import Possibilistic.Proofs.Formula.Joining
import Possibilistic.Proofs.FuzzySet.Equality
import Possibilistic.Proofs.FuzzySet.Members
import Possibilistic.Proofs.Inquiry
import Possibilistic.Proofs.NormalForm.Conjunction
import Possibilistic.Proofs.NormalForm.Disjunctive
import Possibilistic.Proofs.NormalForm.Exactness
import Possibilistic.Proofs.Numeral.Decimal
import Possibilistic.Proofs.Numeral.Reading
import Possibilistic.Proofs.Numeral.Shortest
import Possibilistic.Proofs.Numeral.Text
import Possibilistic.Proofs.World.Crisp
import Possibilistic.Proofs.World.Numbering
import Possibilistic.Proofs.World.Valuation
import Possibilistic.Release
import Possibilistic.Rule.Base
import Possibilistic.Rule.Basic
import Possibilistic.Rule.Draft
import Possibilistic.Settings
import Possibilistic.Text.Blank
import Possibilistic.Text.DecimalDigit
import Possibilistic.Text.Printable
import Possibilistic.Text.Quoted
import Possibilistic.Workload
import Possibilistic.World
import Possibilistic.Proofs.Cube.Selection
import Possibilistic.Proofs.FactBase.Persistence
import Possibilistic.Proofs.Agent.Retention
import Possibilistic.Proofs.Agent.Duties
import Possibilistic.Proofs.Agent.LeastDuties
import Possibilistic.Proofs.Formula.NegationNormal
import Possibilistic.Proofs.NormalForm.Existence
import Possibilistic.Proofs.FactBase.Inconsistency
import Possibilistic.Proofs.Agent.SafeRevision
import Possibilistic.Proofs.Distribution.Decomposition
import Possibilistic.Proofs.Formula.Association
import Possibilistic.Proofs.Binary64.Accuracy
import Possibilistic.Proofs.FactSet.GridNumbers
import Possibilistic.Proofs.FactSet.GridShape
import Possibilistic.Proofs.FactSet.GridPoints
import Possibilistic.Proofs.FactSet.GridSearch
import Possibilistic.Proofs.FactSet.GridOptimum
import Possibilistic.Proofs.FactSet.GridConsistency
import Possibilistic.Proofs.Binary64.Integers
import Possibilistic.Proofs.Binary64.Sums
import Possibilistic.Proofs.NormalForm.Restriction
import Possibilistic.Proofs.NormalForm.Rereading
import Possibilistic.Proofs.FactBase.CheckCounts
import Possibilistic.Proofs.Agent.PairErrors
import Possibilistic.Proofs.Interpretation.Distance
import Possibilistic.Proofs.Formula.Readability
import Possibilistic.Proofs.Interpretation.Equality
import Possibilistic.Proofs.World.Enumeration
import Possibilistic.Proofs.Distribution.Indexing
import Possibilistic.Proofs.FactSet.History
import Possibilistic.Proofs.Release
import Possibilistic.Proofs.FactBase.Support
