import Mathlib.Data.List.Basic
import Mathlib.Logic.Function.Iterate
import Possibilistic.Cube.Minimization
import Possibilistic.Proofs.Cube.Merging

/-!
# Prime cubes

A round merges all cubes of a list that can be merged; each round frees one more
variable, so the rounds end.  The primes are the cubes that merge with no other
in their round.  They cover every cube of the list, and no point besides those
that the list covers.  When the list consists of points, a round has all cubes
with so many free variables whose points are listed.
-/

namespace Possibilistic

namespace Cube

/-- A list adds each of its elements to another list, unless it is there. -/
theorem mem_foldl_append_new {α : Type} [DecidableEq α] {element : α}
    {elements seen : List α} :
    element ∈ elements.foldl
        (fun seen new => if new ∈ seen then seen else seen ++ [new]) seen ↔
      element ∈ seen ∨ element ∈ elements := by
  induction elements generalizing seen with
  | nil => simp
  | cons head tail ih =>
      rw [List.foldl_cons, ih, List.mem_cons, ← or_assoc]
      apply or_congr_left
      split
      · rename_i present
        constructor
        · exact .inl
        · rintro (known | same)
          · exact known
          · exact same ▸ present
      · rw [List.mem_append, List.mem_singleton]

theorem mem_distinct {cube : Cube} {cubes : List Cube} :
    cube ∈ distinct cubes ↔ cube ∈ cubes := by
  rw [distinct, mem_foldl_append_new]
  simp

/-- The cubes that come out of one round of merging. -/
def merged (cubes : List Cube) : List Cube :=
  distinct (merges cubes)

/-- All cubes have the same variables. -/
def Over (atoms : List Atom) (cubes : List Cube) : Prop :=
  ∀ cube ∈ cubes, cube.atoms = atoms

theorem over_distinct {atoms : List Atom} {cubes : List Cube}
    (isOver : Over atoms cubes) : Over atoms (distinct cubes) :=
  fun cube member => isOver cube (mem_distinct.mp member)

section

variable {atoms : List Atom} {cubes : List Cube} (isOver : Over atoms cubes)

include isOver

/-- The executable search looks only at later partners, but merging is
symmetric. -/
theorem mem_merged_iff {cube : Cube} :
    cube ∈ merged cubes ↔
      ∃ left ∈ cubes, ∃ right ∈ cubes,
        Merges left.cells right.cells cube.cells := by
  rw [merged, mem_distinct]
  induction cubes with
  | nil => simp [merges]
  | cons head tail ih =>
      obtain ⟨headOver, tailOver⟩ := List.forall_mem_cons.mp isOver
      rw [merges, List.mem_append, ih tailOver, List.mem_filterMap]
      have mergesHead : ∀ other ∈ tail,
          head.merge? other = some cube ↔
            Merges head.cells other.cells cube.cells :=
        fun other member =>
          merge?_eq_some_iff (headOver.trans (tailOver other member).symm)
      constructor
      · rintro
          (⟨other, member, found⟩ | ⟨left, inTail, right, alsoInTail, found⟩)
        · exact ⟨head, List.mem_cons_self, other,
            List.mem_cons_of_mem _ member, (mergesHead other member).mp found⟩
        · exact ⟨left, List.mem_cons_of_mem _ inTail, right,
            List.mem_cons_of_mem _ alsoInTail, found⟩
      · rintro ⟨left, leftMember, right, rightMember, found⟩
        rcases List.mem_cons.mp leftMember with leftHead | leftTail
        · rcases List.mem_cons.mp rightMember with rightHead | rightTail
          · rw [leftHead, rightHead] at found
            exact absurd rfl found.ne
          · rw [leftHead] at found
            exact .inl
              ⟨right, rightTail, (mergesHead right rightTail).mpr found⟩
        · rcases List.mem_cons.mp rightMember with rightHead | rightTail
          · rw [rightHead] at found
            exact .inl
              ⟨left, leftTail, (mergesHead left leftTail).mpr found.symm⟩
          · exact .inr ⟨left, leftTail, right, rightTail, found⟩

theorem over_merged : Over atoms (merged cubes) := by
  intro cube member
  obtain ⟨left, present, _, _, merges⟩ := (mem_merged_iff isOver).mp member
  exact merges.map_fst.trans (isOver left present)

theorem mergesWithin_iff {cube : Cube} (member : cube ∈ cubes) :
    mergesWithin cubes cube = true ↔
      ∃ other ∈ cubes, ∃ cells, Merges cube.cells other.cells cells := by
  rw [mergesWithin, List.any_eq_true]
  apply exists_congr
  intro other
  apply and_congr_right
  intro otherMember
  have sameAtoms : cube.atoms = other.atoms :=
    (isOver cube member).trans (isOver other otherMember).symm
  rw [Option.isSome_iff_exists]
  constructor
  · rintro ⟨found, equality⟩
    exact ⟨found.cells, (merge?_eq_some_iff sameAtoms).mp equality⟩
  · rintro ⟨cells, merges⟩
    exact ⟨⟨cells⟩, (merge?_eq_some_iff sameAtoms).mpr merges⟩

theorem over_iterate_merged (round : Nat) :
    Over atoms (merged^[round] cubes) := by
  induction round with
  | zero => exact isOver
  | succ round ih =>
      rw [Function.iterate_succ_apply']
      exact over_merged ih

/-- Every round frees one more variable. -/
theorem le_freedom_of_mem_iterate {round : Nat} {cube : Cube}
    (member : cube ∈ merged^[round] cubes) : round ≤ freedom cube.cells := by
  induction round generalizing cube with
  | zero => exact Nat.zero_le _
  | succ round ih =>
      rw [Function.iterate_succ_apply'] at member
      obtain ⟨left, present, _, _, merges⟩ :=
        (mem_merged_iff (over_iterate_merged isOver round)).mp member
      rw [merges.freedom_eq]
      exact Nat.succ_le_succ (ih present)

/-- What comes out of the rounds covers one of the cubes that went in. -/
theorem exists_covers_of_mem_iterate {round : Nat} {cube : Cube}
    (member : cube ∈ merged^[round] cubes) :
    ∃ origin ∈ cubes, Covers cube.cells origin.cells := by
  induction round generalizing cube with
  | zero => exact ⟨cube, member, Covers.refl _⟩
  | succ round ih =>
      rw [Function.iterate_succ_apply'] at member
      obtain ⟨left, present, _, _, merges⟩ :=
        (mem_merged_iff (over_iterate_merged isOver round)).mp member
      obtain ⟨origin, inCubes, covered⟩ := ih present
      exact ⟨origin, inCubes, merges.covers_left.trans covered⟩

/-- It covers no further point. -/
theorem exists_covers_point_of_mem_iterate {round : Nat} {cube : Cube}
    (member : cube ∈ merged^[round] cubes) {point : List (Atom × Mark)}
    (isPoint : IsPoint point) (covered : Covers cube.cells point) :
    ∃ origin ∈ cubes, Covers origin.cells point := by
  induction round generalizing cube with
  | zero => exact ⟨cube, member, covered⟩
  | succ round ih =>
      rw [Function.iterate_succ_apply'] at member
      obtain ⟨left, leftPresent, right, rightPresent, merges⟩ :=
        (mem_merged_iff (over_iterate_merged isOver round)).mp member
      rcases (merges.covers_point_iff isPoint).mp covered with
        leftCovers | rightCovers
      · exact ih leftPresent leftCovers
      · exact ih rightPresent rightCovers

end

theorem mem_primesFrom_iff {rounds : Nat} {current primes : List Cube}
    {cube : Cube} :
    cube ∈ primesFrom rounds current primes ↔
      cube ∈ primes ∨ ∃ round < rounds, cube ∈ merged^[round] current ∧
        mergesWithin (merged^[round] current) cube = false := by
  induction rounds generalizing current primes with
  | zero => simp [primesFrom]
  | succ rounds ih =>
      rw [primesFrom, ih, mem_distinct, List.mem_append, List.mem_filter,
        or_assoc, Bool.not_eq_true']
      apply or_congr_right
      constructor
      · rintro (survives | ⟨round, below, survives⟩)
        · exact ⟨0, Nat.succ_pos _, survives⟩
        · exact ⟨round + 1, Nat.succ_lt_succ below, survives⟩
      · rintro ⟨round, below, survives⟩
        cases round with
        | zero => exact .inl survives
        | succ round =>
            exact .inr ⟨round, Nat.lt_of_succ_lt_succ below, survives⟩

theorem le_foldl_max {α : Type} (measure : α → Nat) {elements : List α}
    {start : Nat} {element : α} (member : element ∈ elements) :
    measure element ≤ elements.foldl
      (fun most element => max most (measure element)) start := by
  have ascends : ∀ (elements : List α) (start : Nat), start ≤ elements.foldl
      (fun most element => max most (measure element)) start := by
    intro elements
    induction elements with
    | nil => exact fun _ => Nat.le_refl _
    | cons head tail ih =>
        intro start
        exact Nat.le_trans (Nat.le_max_left _ _) (ih _)
  induction elements generalizing start with
  | nil => cases member
  | cons head tail ih =>
      rcases List.mem_cons.mp member with same | inTail
      · rw [same]
        exact Nat.le_trans (Nat.le_max_right _ _) (ascends tail _)
      · exact ih inTail

section

variable {atoms : List Atom} {cubes : List Cube} (isOver : Over atoms cubes)

include isOver

/-- The primes are the cubes that merge with no other in their round; there are
no more rounds than the variables allow. -/
theorem mem_primes_iff {cube : Cube} :
    cube ∈ primes cubes ↔
      ∃ round, cube ∈ merged^[round] (distinct cubes) ∧
        mergesWithin (merged^[round] (distinct cubes)) cube = false := by
  have distinctOver := over_distinct isOver
  rw [primes, mem_primesFrom_iff, or_iff_right List.not_mem_nil]
  constructor
  · rintro ⟨round, _, survives⟩
    exact ⟨round, survives⟩
  · rintro ⟨round, survives⟩
    refine ⟨round, ?_, survives⟩
    obtain ⟨origin, member, covered⟩ :=
      exists_covers_of_mem_iterate distinctOver survives.1
    have sameLength : cube.cells.length = origin.cells.length :=
      covered.length_eq
    have freed : round ≤ freedom cube.cells :=
      le_freedom_of_mem_iterate distinctOver survives.1
    have bounded : freedom cube.cells ≤ cube.cells.length :=
      List.countP_le_length
    have counted := @le_foldl_max _ (fun cube : Cube => cube.cells.length)
      cubes 0 origin (mem_distinct.mp member)
    omega

theorem exists_prime_covers_of_mem_iterate {round : Nat} {cube : Cube}
    (present : cube ∈ merged^[round] (distinct cubes)) :
    ∃ prime ∈ primes cubes, Covers prime.cells cube.cells := by
  -- Merging goes on while variables are fixed.
  induction fixed : cube.cells.length - freedom cube.cells
    using Nat.strongRecOn generalizing round cube with
  | ind fixed ih =>
      have currentOver := over_iterate_merged (over_distinct isOver) round
      cases mergesNow : mergesWithin (merged^[round] (distinct cubes)) cube with
      | false =>
          exact ⟨cube, (mem_primes_iff isOver).mpr ⟨round, present, mergesNow⟩,
            Covers.refl _⟩
      | true =>
          obtain ⟨other, otherPresent, cells, merges⟩ :=
            (mergesWithin_iff currentOver present).mp mergesNow
          have inNext : ⟨cells⟩ ∈ merged^[round + 1] (distinct cubes) := by
            rw [Function.iterate_succ_apply']
            exact (mem_merged_iff currentOver).mpr
              ⟨cube, present, other, otherPresent, merges⟩
          have sameLength : cells.length = cube.cells.length :=
            merges.covers_left.length_eq
          have bounded : freedom cells ≤ cells.length := List.countP_le_length
          have freed := merges.freedom_eq
          obtain ⟨prime, isPrime, covered⟩ :=
            ih (cells.length - freedom cells) (by omega) inNext rfl
          exact ⟨prime, isPrime, covered.trans merges.covers_left⟩

/-- The primes cover every cube of the list. -/
theorem exists_prime_covers {cube : Cube} (member : cube ∈ cubes) :
    ∃ prime ∈ primes cubes, Covers prime.cells cube.cells := by
  apply @exists_prime_covers_of_mem_iterate atoms cubes isOver 0
  exact mem_distinct.mpr member

/-- The primes cover no point that the list does not cover. -/
theorem exists_covers_point_of_mem_primes {prime : Cube}
    (isPrime : prime ∈ primes cubes) {point : List (Atom × Mark)}
    (isPoint : IsPoint point) (covered : Covers prime.cells point) :
    ∃ cube ∈ cubes, Covers cube.cells point := by
  obtain ⟨round, present, _⟩ := (mem_primes_iff isOver).mp isPrime
  obtain ⟨origin, member, originCovers⟩ :=
    exists_covers_point_of_mem_iterate (over_distinct isOver) present isPoint
      covered
  exact ⟨origin, mem_distinct.mp member, originCovers⟩

theorem over_primes : Over atoms (primes cubes) := by
  intro prime isPrime
  obtain ⟨round, present, _⟩ := (mem_primes_iff isOver).mp isPrime
  exact over_iterate_merged (over_distinct isOver) round prime present

end

/-- All points that the cells cover are listed. -/
def OnlyCovers (cubes : List Cube) (cells : List (Atom × Mark)) : Prop :=
  ∀ point : Cube, IsPoint point.cells → Covers cells point.cells →
    point ∈ cubes

theorem Merges.onlyCovers_iff {cubes : List Cube}
    {lefts rights merged : List (Atom × Mark)}
    (merges : Merges lefts rights merged) :
    OnlyCovers cubes merged ↔
      OnlyCovers cubes lefts ∧ OnlyCovers cubes rights := by
  constructor
  · intro listed
    constructor
    · intro point isPoint covered
      exact listed point isPoint
        ((merges.covers_point_iff isPoint).mpr (.inl covered))
    · intro point isPoint covered
      exact listed point isPoint
        ((merges.covers_point_iff isPoint).mpr (.inr covered))
  · intro ⟨leftListed, rightListed⟩ point isPoint covered
    rcases (merges.covers_point_iff isPoint).mp covered with
      leftCovers | rightCovers
    · exact leftListed point isPoint leftCovers
    · exact rightListed point isPoint rightCovers

section

variable {atoms : List Atom} {cubes : List Cube} (isOver : Over atoms cubes)
  (points : ∀ cube ∈ cubes, IsPoint cube.cells)

include isOver points

/-- From points a round makes all cubes with so many free variables that cover
listed points only. -/
theorem mem_iterate_merged_iff {round : Nat} {cube : Cube} :
    cube ∈ merged^[round] cubes ↔
      cube.atoms = atoms ∧ freedom cube.cells = round ∧
        OnlyCovers cubes cube.cells := by
  induction round generalizing cube with
  | zero =>
      rw [Function.iterate_zero, id_eq, freedom_eq_zero_iff]
      constructor
      · intro member
        refine ⟨isOver cube member, points cube member, ?_⟩
        intro point _ covered
        have same := covered.eq_of_isPoint (points cube member)
        cases cube
        cases point
        cases same
        exact member
      · intro ⟨_, isPoint, listed⟩
        exact listed cube isPoint (Covers.refl _)
  | succ round ih =>
      rw [Function.iterate_succ_apply',
        mem_merged_iff (over_iterate_merged isOver round)]
      constructor
      · rintro ⟨left, leftPresent, right, rightPresent, merges⟩
        obtain ⟨leftAtoms, leftFreedom, leftListed⟩ := ih.mp leftPresent
        obtain ⟨_, _, rightListed⟩ := ih.mp rightPresent
        refine ⟨merges.map_fst.trans leftAtoms, ?_,
          merges.onlyCovers_iff.mpr ⟨leftListed, rightListed⟩⟩
        rw [merges.freedom_eq, leftFreedom]
      · intro ⟨cubeAtoms, cubeFreedom, listed⟩
        obtain ⟨lefts, rights, merges⟩ :=
          @exists_merges_of_free cube.cells (by omega)
        obtain ⟨leftListed, rightListed⟩ := merges.onlyCovers_iff.mp listed
        have leftFreedom := merges.freedom_eq
        have rightFreedom := merges.symm.freedom_eq
        refine ⟨⟨lefts⟩, ih.mpr ⟨?_, ?_, leftListed⟩,
          ⟨rights⟩, ih.mpr ⟨?_, ?_, rightListed⟩, merges⟩
        · exact merges.map_fst.symm.trans cubeAtoms
        · simp only
          omega
        · exact merges.symm.map_fst.symm.trans cubeAtoms
        · simp only
          omega

theorem mem_iterate_merged_distinct_iff {round : Nat} {cube : Cube} :
    cube ∈ merged^[round] (distinct cubes) ↔
      cube.atoms = atoms ∧ freedom cube.cells = round ∧
        OnlyCovers cubes cube.cells := by
  have distinctPoints : ∀ other ∈ distinct cubes, IsPoint other.cells :=
    fun other member => points other (mem_distinct.mp member)
  rw [mem_iterate_merged_iff (over_distinct isOver) distinctPoints]
  simp only [OnlyCovers, mem_distinct]

/-- From points the primes are the cubes that cover listed points only and that
cover others as soon as a further variable is freed. -/
theorem mem_primes_iff_of_points {cube : Cube} :
    cube ∈ primes cubes ↔
      cube.atoms = atoms ∧ OnlyCovers cubes cube.cells ∧
        ∀ rights cells, Merges cube.cells rights cells →
          ¬OnlyCovers cubes cells := by
  have distinctOver := over_distinct isOver
  have inRound := @mem_iterate_merged_distinct_iff atoms cubes isOver points
  rw [mem_primes_iff isOver]
  constructor
  · rintro ⟨round, present, survives⟩
    obtain ⟨cubeAtoms, cubeFreedom, listed⟩ := inRound.mp present
    refine ⟨cubeAtoms, listed, ?_⟩
    intro rights cells merges alsoListed
    have partner : ⟨rights⟩ ∈ merged^[round] (distinct cubes) := by
      apply inRound.mpr
      refine ⟨?_, ?_, (merges.onlyCovers_iff.mp alsoListed).2⟩
      · exact (merges.symm.map_fst.symm.trans merges.map_fst).trans cubeAtoms
      · have freed := merges.freedom_eq
        have alsoFreed := merges.symm.freedom_eq
        simp only
        omega
    have mergesNow := (mergesWithin_iff
      (over_iterate_merged distinctOver round) present).mpr
        ⟨⟨rights⟩, partner, cells, merges⟩
    rw [survives] at mergesNow
    cases mergesNow
  · intro ⟨cubeAtoms, listed, maximal⟩
    have present := inRound.mpr ⟨cubeAtoms, rfl, listed⟩
    refine ⟨freedom cube.cells, present, ?_⟩
    apply Bool.eq_false_iff.mpr
    intro mergesNow
    obtain ⟨other, partner, cells, merges⟩ := (mergesWithin_iff
      (over_iterate_merged distinctOver _) present).mp mergesNow
    obtain ⟨_, _, otherListed⟩ := inRound.mp partner
    exact maximal _ _ merges (merges.onlyCovers_iff.mpr ⟨listed, otherListed⟩)

/-- If all points are listed, the only prime leaves every variable free. -/
theorem isFree_of_mem_primes
    (full : ∀ point : Cube, point.atoms = atoms → IsPoint point.cells →
      point ∈ cubes) {prime : Cube} (isPrime : prime ∈ primes cubes) :
    ∀ cell ∈ prime.cells, cell.2 = .free := by
  obtain ⟨primeAtoms, _, maximal⟩ :=
    (mem_primes_iff_of_points isOver points).mp isPrime
  have noneFixed : ¬freedom prime.cells < prime.cells.length := by
    intro fixed
    obtain ⟨rights, cells, merges⟩ := exists_merges_of_fixed fixed
    apply maximal rights cells merges
    intro point isPoint covered
    apply full point _ isPoint
    exact covered.map_fst.symm.trans (merges.map_fst.trans primeAtoms)
  have allFree : freedom prime.cells = prime.cells.length :=
    Nat.le_antisymm List.countP_le_length (Nat.le_of_not_lt noneFixed)
  intro cell member
  simpa using List.countP_eq_length.mp allFree cell member

end

end Cube

end Possibilistic
