import Mathlib.Logic.Function.Iterate
import Possibilistic.CheckCount
import Possibilistic.Proofs.FactBase.Cuts
import Possibilistic.Proofs.Inquiry

/-!
# How many checks a necessity takes

The scan over the levels makes one check for each level that it passes and one
for the level that stops it, if there is one.  The levels that it passes are
those that are not above what it has reached, so the answer tells the number of
checks.  The last check of the whole base raises the answer to one only where
every level was passed.
-/

namespace Possibilistic

namespace FactBase

variable {base : FactBase} {formula : Formula}

/-- How many levels are not above a degree. -/
def levelsUpTo (base : FactBase) (degree : Degree) : Nat :=
  base.levels.countP fun level => level ≤ degree

theorem checks_models (counted : base.counted = true) (formula : Formula) :
    (base.models formula).checks = 1 := by
  simp [models, counted, Inquiry.check]

section

variable {level reached : Degree} {higher levels : List Degree}

/-- The scan passes a level whose cut entails the formula. -/
theorem highestCut_of_entails (counted : base.counted = true)
    (entails : base.CutEntails formula level) :
    (base.highestCut formula (level :: higher) reached).value =
        (base.highestCut formula higher level).value ∧
      (base.highestCut formula (level :: higher) reached).checks =
        (base.highestCut formula higher level).checks + 1 := by
  have once : ((base.cut level).models formula).checks = 1 :=
    @checks_models (base.cut level) counted formula
  have full : ((base.cut level).models formula).value.isOne = true := entails
  simp only [highestCut, Inquiry.value_bind, Inquiry.checks_bind, once, full,
    if_true, true_and]
  exact Nat.add_comm _ _

/-- The scan stops at a level whose cut does not entail the formula. -/
theorem highestCut_of_not_entails (counted : base.counted = true)
    (fails : ¬base.CutEntails formula level) :
    (base.highestCut formula (level :: higher) reached).value = reached ∧
      (base.highestCut formula (level :: higher) reached).checks = 1 := by
  have once : ((base.cut level).models formula).checks = 1 :=
    @checks_models (base.cut level) counted formula
  have short : ¬((base.cut level).models formula).value.isOne = true := fails
  simp only [highestCut, Inquiry.value_bind, Inquiry.checks_bind, once, short]
  exact ⟨rfl, rfl⟩

/-- What the scan has reached tells how many checks it made. -/
theorem checks_highestCut (counted : base.counted = true)
    (ascending : levels.Pairwise (· < ·))
    (above : ∀ level ∈ levels, reached < level) :
    reached ≤ (base.highestCut formula levels reached).value ∧
      (base.highestCut formula levels reached).checks =
        min levels.length (levels.countP (fun level =>
          level ≤ (base.highestCut formula levels reached).value) + 1) := by
  induction levels generalizing reached with
  | nil => exact ⟨Nat.le_refl _, rfl⟩
  | cons next higher ih =>
      obtain ⟨nextBelow, higherAscending⟩ := List.pairwise_cons.mp ascending
      have reachedBelow : reached < next := above next List.mem_cons_self
      by_cases entails : base.CutEntails formula next
      · obtain ⟨sameValue, oneMore⟩ := @highestCut_of_entails base formula next
          reached higher counted entails
        obtain ⟨passed, checks⟩ := ih higherAscending nextBelow
        have oneMoreReached := @List.countP_cons_of_pos _
          (fun level => decide
            (level ≤ (base.highestCut formula higher next).value))
          next higher (decide_eq_true passed)
        rw [sameValue, oneMore, checks, oneMoreReached, List.length_cons,
          Nat.add_min_add_right]
        exact ⟨Nat.le_trans (Nat.le_of_lt reachedBelow) passed, rfl⟩
      · obtain ⟨sameValue, once⟩ := @highestCut_of_not_entails base formula next
          reached higher counted entails
        have noneReached :
            (next :: higher).countP (fun level => level ≤ reached) = 0 := by
          apply List.countP_eq_zero.mpr
          intro level member isReached
          exact Nat.not_le.mpr (above level member)
            (of_decide_eq_true isReached)
        rw [sameValue, once, noneReached, List.length_cons]
        exact ⟨Nat.le_refl _, by omega⟩

/-- The scan makes one check for each level where it passes all of them. -/
theorem checks_highestCut_of_entails (counted : base.counted = true)
    (entails : ∀ level ∈ levels, base.CutEntails formula level) :
    (base.highestCut formula levels reached).checks = levels.length := by
  induction levels generalizing reached with
  | nil => rfl
  | cons next higher ih =>
      obtain ⟨nextEntails, higherEntail⟩ := List.forall_mem_cons.mp entails
      rw [(highestCut_of_entails counted nextEntails).2, ih higherEntail,
        List.length_cons]

end

theorem checks_necessity (counted : base.counted = true)
    (nonconstant : formula.constant? = none) :
    (base.necessity formula).checks =
      min base.levels.length
        (base.levelsUpTo (base.necessity formula).value + 1) + 1 := by
  have scanAndOnce : (base.necessity formula).checks =
      (base.highestCut formula base.levels Degree.zero).checks + 1 := by
    simp only [necessity, nonconstant, Inquiry.checks_bind,
      checks_models counted]
    split <;> rfl
  rw [scanAndOnce, value_necessity nonconstant]
  by_cases certain : (base.entailment formula).isOne = true
  · -- What the certain facts entail, every cut entails.
    have entails : ∀ level ∈ base.levels, base.CutEntails formula level := by
      intro level _
      rw [← value_models] at certain
      exact (models_isOne_iff_cutEntails_one.mp certain).antitone
        level.atMostOne
    have allReached : base.levelsUpTo Degree.one = base.levels.length :=
      List.countP_eq_length.mpr fun level _ => decide_eq_true level.atMostOne
    rw [checks_highestCut_of_entails counted entails, if_pos certain,
      allReached]
    omega
  · have positive : ∀ level ∈ base.levels, Degree.zero < level := by
      intro level member
      obtain ⟨fact, present⟩ := FuzzySet.mem_items_of_mem_levels member
      exact FuzzySet.pos_of_mem_items present
    have ascending : base.levels.Pairwise (· < ·) := Degree.pairwise_levels _
    rw [if_neg certain, (checks_highestCut counted ascending positive).2,
      levelsUpTo]

end FactBase

/-- The count after an inquiry, whose checks increment it one by one. -/
def CheckCount.after {α : Type} (count : CheckCount) (inquiry : Inquiry α) :
    CheckCount :=
  (fun current : CheckCount => current.increment)^[inquiry.checks] count

theorem CheckCount.value_after {α : Type} (count : CheckCount)
    (inquiry : Inquiry α) :
    (count.after inquiry).value = count.value + inquiry.checks := by
  rw [after]
  induction inquiry.checks with
  | zero => simp
  | succ checks ih =>
      rw [Function.iterate_succ_apply']
      change CheckCount.value _ + 1 = _
      rw [ih]
      omega

namespace FactBase

variable {base : FactBase} {formula : Formula}

/-- The answer to a question of necessity tells how often it incremented the
count: once for the base, and as often as there are levels up to the answer, and
once more where a level lies above it.  The possibility of a formula takes what
the necessity of its opposite takes. -/
theorem necessity_tells_its_checks (counted : base.counted = true)
    (nonconstant : formula.constant? = none) (count : CheckCount) :
    (count.after (base.necessity formula)).value =
        count.value + (min base.levels.length
          (base.levelsUpTo (base.necessity formula).value + 1) + 1 : Nat) ∧
      (formula.negated.constant? = none →
        (count.after (base.possibility formula)).value =
          count.value + (min base.levels.length
            (base.levelsUpTo (base.necessity formula.negated).value + 1) + 1 :
              Nat)) := by
  constructor
  · rw [CheckCount.value_after, checks_necessity counted nonconstant]
  · intro oppositeNonconstant
    simp only [CheckCount.value_after, possibility, nonconstant,
      Inquiry.checks_map, checks_necessity counted oppositeNonconstant]

/-- Half certain that it rains and certain that rain wets the road, one asks for
a wet road: the scan passes the level one half and stops at three quarters, and
for a dry road it stops at once. -/
theorem necessity_tells_its_checks_wet :
    let rain : Formula := .atom ⟨"rain"⟩
    let wet : Formula := .atom ⟨"wet"⟩
    let base : FactBase :=
      { facts := ((FactSet.empty.tell rain Degree.half).tell
          (.atom ⟨"sun"⟩) (Degree.half.mean Degree.one)).tell
          (rain.neg.disj wet) Degree.one
        counted := true
        warnAbove := 20 }
    base.counted = true ∧ wet.constant? = none ∧
      wet.negated.constant? = none ∧ base.levels.length = 3 ∧
      (base.necessity wet).value = Degree.half ∧
      (CheckCount.zero.after (base.necessity wet)).value = 3 ∧
      (base.necessity wet.negated).value = Degree.zero ∧
      (CheckCount.zero.after (base.possibility wet)).value = 2 := by
  intro rain wet base
  have nonconstant : wet.constant? = none := by decide +kernel
  have oppositeNonconstant : wet.negated.constant? = none := rfl
  obtain ⟨forWet, forDry⟩ := @necessity_tells_its_checks base wet rfl
    nonconstant CheckCount.zero
  exact ⟨rfl, nonconstant, oppositeNonconstant, by decide +kernel,
    by decide +kernel, forWet.trans (by decide +kernel), by decide +kernel,
    (forDry oppositeNonconstant).trans (by decide +kernel)⟩

end FactBase

end Possibilistic
