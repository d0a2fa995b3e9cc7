import Possibilistic.FactBase.Necessity
import Possibilistic.Proofs.Inquiry

/-!
# What questions to facts report

Entailment checks, and so necessities, report nothing but vast vocabularies.
-/

namespace Possibilistic

namespace FactBase

open Inquiry

theorem onlyEnumerates_models (base : FactBase) (formula : Formula) :
    (base.models formula).OnlyEnumerates := by
  simp only [models]
  cases base.counted with
  | true =>
      apply onlyEnumerates_check.bind
      apply (onlyEnumerates_warnAbove _ _).bind
      exact OnlyEnumerates.pure _
  | false =>
      apply (onlyEnumerates_warnAbove _ _).bind
      exact OnlyEnumerates.pure _

theorem onlyEnumerates_highestCut (base : FactBase) (formula : Formula)
    (levels : List Degree) (reached : Degree) :
    (base.highestCut formula levels reached).OnlyEnumerates := by
  induction levels generalizing reached with
  | nil => exact OnlyEnumerates.pure reached
  | cons level higher ih =>
      apply (onlyEnumerates_models (base.cut level) formula).bind
      split
      · exact ih level
      · exact OnlyEnumerates.pure reached

theorem onlyEnumerates_necessity (base : FactBase) (formula : Formula) :
    (base.necessity formula).OnlyEnumerates := by
  simp only [necessity]
  split
  · exact OnlyEnumerates.pure _
  · apply (onlyEnumerates_highestCut base formula _ _).bind
    apply (onlyEnumerates_models base formula).bind
    split
    · exact OnlyEnumerates.pure _
    · exact OnlyEnumerates.pure _

end FactBase

end Possibilistic
