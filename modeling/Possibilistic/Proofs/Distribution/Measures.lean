import Possibilistic.Distribution
import Possibilistic.Proofs.Degree.Extremes

/-!
# Measures over all worlds

The scans that compute the measures of a distribution leave early where nothing
can change any more, so they visit every world in effect: the greatest and the
least degree of the worlds that satisfy a condition are known by the levels
that such worlds reach.
-/

namespace Possibilistic

namespace Distribution

theorem le_raised_iff {holds : Bool} {level result degree : Degree} :
    level ≤ (if holds then max result degree else result) ↔
      level ≤ result ∨ holds = true ∧ level ≤ degree := by
  cases holds with
  | true => simp [Degree.le_max_iff]
  | false => simp

theorem le_lowered_iff {holds : Bool} {level result degree : Degree} :
    level ≤ (if holds then min result degree else result) ↔
      level ≤ result ∧ (holds = true → level ≤ degree) := by
  cases holds with
  | true => simp [Degree.le_min_iff]
  | false => simp

theorem le_scan_max_iff {atoms : List Atom}
    {condition : Interpretation → Bool} {level : Degree} {number : Nat}
    {degrees : List Degree} {result : Degree} :
    level ≤ scanFrom atoms Degree.isOne
        (fun result world degree =>
          if condition world then max result degree else result)
        number degrees result ↔
      level ≤ result ∨ ∃ index, ∃ below : index < degrees.length,
        condition (World.numbered atoms (number + index : Nat)) = true ∧
          level ≤ degrees[index] := by
  induction degrees generalizing number result with
  | nil => simp [scanFrom]
  | cons head tail ih =>
      rw [scanFrom]
      split
      · rename_i full
        have reached : level ≤ result := by
          rw [Degree.le_iff, Degree.isOne_iff.mp full]
          exact level.atMostOne
        simp [reached]
      · rw [ih, le_raised_iff, or_assoc]
        apply or_congr_right
        constructor
        · rintro (⟨holds, reached⟩ | ⟨index, below, holds, reached⟩)
          · exact ⟨0, Nat.zero_lt_succ _, holds, reached⟩
          · refine ⟨index + 1, Nat.succ_lt_succ below, ?_, reached⟩
            rw [← Nat.add_assoc, Nat.add_right_comm]
            exact holds
        · rintro ⟨index, below, holds, reached⟩
          cases index with
          | zero => exact .inl ⟨holds, reached⟩
          | succ index =>
              right
              refine ⟨index, Nat.lt_of_succ_lt_succ below, ?_, reached⟩
              rw [Nat.add_right_comm, Nat.add_assoc]
              exact holds

theorem le_scan_min_iff {atoms : List Atom}
    {condition : Interpretation → Bool} {level : Degree} {number : Nat}
    {degrees : List Degree} {result : Degree} :
    level ≤ scanFrom atoms Degree.isZero
        (fun result world degree =>
          if condition world then min result degree else result)
        number degrees result ↔
      level ≤ result ∧ ∀ index (below : index < degrees.length),
        condition (World.numbered atoms (number + index : Nat)) = true →
          level ≤ degrees[index] := by
  induction degrees generalizing number result with
  | nil => simp [scanFrom]
  | cons head tail ih =>
      rw [scanFrom]
      split
      · rename_i vanishing
        constructor
        · intro reached
          refine ⟨reached, ?_⟩
          intro index below _
          rw [Degree.le_iff, Degree.isZero_iff.mp vanishing] at reached
          exact Nat.le_trans reached (Nat.zero_le _)
        · exact And.left
      · rw [ih, le_lowered_iff, and_assoc]
        apply and_congr_right
        intro _
        constructor
        · rintro ⟨first, later⟩ index below holds
          cases index with
          | zero => exact first holds
          | succ index =>
              apply later index (Nat.lt_of_succ_lt_succ below)
              rw [Nat.add_right_comm, Nat.add_assoc]
              exact holds
        · intro every
          constructor
          · exact every 0 (Nat.zero_lt_succ _)
          · intro index below holds
            apply every (index + 1) (Nat.succ_lt_succ below)
            rw [← Nat.add_assoc, Nat.add_right_comm]
            exact holds

theorem degreeAt_eq_getElem {distribution : Distribution} {number : Nat}
    (below : number < distribution.degrees.length) :
    distribution.degreeAt number = distribution.degrees[number] := by
  simp [degreeAt, below]

theorem degreeAt_mapWorlds {distribution : Distribution}
    {degree : Interpretation → Degree} {number : Nat}
    (below : number < World.count distribution.atoms) :
    (distribution.mapWorlds degree).degreeAt number =
      degree (World.numbered distribution.atoms number) := by
  simp [degreeAt, mapWorlds, World.all, World.firstWorlds, below]

theorem degreeAt_of_degrees_eq {distribution : Distribution}
    {degree : Interpretation → Degree}
    (degrees : distribution.degrees = distribution.worlds.map degree)
    {number : Nat} (below : number < World.count distribution.atoms) :
    distribution.degreeAt number =
      degree (World.numbered distribution.atoms number) := by
  simp [degreeAt, degrees, worlds, World.all, World.firstWorlds, below]

theorem degreeAt_constant {atoms : List Atom} {degree : Degree}
    {number : Nat} (below : number < World.count atoms) :
    (constant atoms degree).degreeAt number = degree := by
  simp [degreeAt, constant, below]

/-- A positive level is reached by the greatest degree exactly when a world
that satisfies the condition reaches it. -/
theorem le_greatest_iff {distribution : Distribution}
    {condition : Interpretation → Bool} {level : Degree}
    (positive : 0 < level.units) :
    level ≤ distribution.greatest condition ↔
      ∃ number, number < World.count distribution.atoms ∧
        condition (World.numbered distribution.atoms (number : Nat)) = true ∧
          level ≤ distribution.degreeAt number := by
  have above_zero : ¬level ≤ Degree.zero := by
    rw [Degree.le_iff, Degree.units_zero]
    omega
  rw [greatest, le_scan_max_iff, or_iff_right above_zero]
  constructor
  · rintro ⟨number, below, holds, reached⟩
    rw [Nat.zero_add] at holds
    rw [← degreeAt_eq_getElem below] at reached
    exact ⟨number, distribution.length_eq ▸ below, holds, reached⟩
  · rintro ⟨number, below, holds, reached⟩
    have stored : number < distribution.degrees.length := by
      rw [distribution.length_eq]
      exact below
    rw [degreeAt_eq_getElem stored] at reached
    refine ⟨number, stored, ?_, reached⟩
    rw [Nat.zero_add]
    exact holds

/-- A level is reached by the least degree exactly when every world that
satisfies the condition reaches it. -/
theorem le_least_iff {distribution : Distribution}
    {condition : Interpretation → Bool} {level : Degree} :
    level ≤ distribution.least condition ↔
      ∀ number, number < World.count distribution.atoms →
        condition (World.numbered distribution.atoms (number : Nat)) = true →
          level ≤ distribution.degreeAt number := by
  have below_one : level ≤ Degree.one := level.atMostOne
  rw [least, le_scan_min_iff, and_iff_right below_one]
  constructor
  · intro every number below holds
    have stored : number < distribution.degrees.length := by
      rw [distribution.length_eq]
      exact below
    rw [degreeAt_eq_getElem stored]
    apply every number stored
    rw [Nat.zero_add]
    exact holds
  · intro every number below holds
    rw [Nat.zero_add] at holds
    rw [← degreeAt_eq_getElem below]
    exact every number (distribution.length_eq ▸ below) holds

theorem negativeZero_greatest (distribution : Distribution)
    (condition : Interpretation → Bool) :
    (distribution.greatest condition).negativeZero = false := by
  rw [greatest]
  have start : Degree.zero.negativeZero = false := rfl
  generalize 0 = number
  generalize Degree.zero = result at start ⊢
  induction distribution.degrees generalizing number result with
  | nil => exact start
  | cons head tail ih =>
      rw [scanFrom]
      split
      · exact start
      · apply ih
        split
        · exact Degree.negativeZero_max start head
        · exact start

end Distribution

end Possibilistic
