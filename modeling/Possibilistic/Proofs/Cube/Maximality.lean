import Possibilistic.Proofs.Cube.Completion

/-!
# Primes as maximal implicants

A cube is an implicant of listed points when it covers none but these, and it is
maximal when it loses this as soon as one more variable is left free.  Merging
finds all maximal implicants and nothing else: a cube fails to merge in its
round exactly when none of its larger neighbours is an implicant.
-/

namespace Possibilistic

namespace Cube

/-- The cube with one more variable left free. -/
def release (cube : Cube) (index : Nat) : Cube :=
  ⟨cube.cells.modify index fun cell => (cell.1, .free)⟩

/-- Every assignment that the cube covers is listed. -/
def IsImplicant (cubes : List Cube) (cube : Cube) : Prop :=
  ∀ point : Cube, point.atoms = cube.atoms → IsPoint point.cells →
    cube.covers point = true → point ∈ cubes

/-- An implicant that covers something unlisted when any of its fixed
variables is left free. -/
structure IsMaximalImplicant (cubes : List Cube) (cube : Cube) : Prop where
  isImplicant : IsImplicant cubes cube
  maximal : ∀ index (below : index < cube.cells.length),
    cube.cells[index].2 ≠ .free → ¬IsImplicant cubes (cube.release index)

theorem isImplicant_iff {cubes : List Cube} {cube : Cube} :
    IsImplicant cubes cube ↔ OnlyCovers cubes cube.cells := by
  constructor
  · intro implicant point isPoint covered
    have sameAtoms : cube.atoms = point.atoms := covered.map_fst
    exact implicant point sameAtoms.symm isPoint
      ((covers_iff sameAtoms).mpr covered)
  · intro listed point sameAtoms isPoint covered
    exact listed point isPoint ((covers_iff sameAtoms.symm).mp covered)

/-- A merged cube is one of its halves with the common variable left free. -/
theorem Merges.exists_modify {lefts rights merged : List (Atom × Mark)}
    (merges : Merges lefts rights merged) :
    ∃ index, ∃ below : index < lefts.length, lefts[index].2 ≠ .free ∧
      merged = lefts.modify index fun cell => (cell.1, .free) := by
  induction merges with
  | here fixed rest => exact ⟨0, Nat.zero_lt_succ _, fixed, rfl⟩
  | there cell _ ih =>
      obtain ⟨index, below, fixed, equality⟩ := ih
      refine ⟨index + 1, Nat.succ_lt_succ below, fixed, ?_⟩
      rw [equality, List.modify_succ_cons]

/-- A cube with a fixed variable merges with the cube that has the opposite
value there. -/
theorem exists_merges_modify {cells : List (Atom × Mark)} {index : Nat}
    (below : index < cells.length) (fixed : cells[index].2 ≠ .free) :
    ∃ rights, Merges cells rights
      (cells.modify index fun cell => (cell.1, .free)) := by
  induction cells generalizing index with
  | nil => cases below
  | cons head tail ih =>
      cases index with
      | zero => exact ⟨_, .here fixed tail⟩
      | succ index =>
          obtain ⟨rights, merges⟩ := ih (Nat.lt_of_succ_lt_succ below) fixed
          rw [List.modify_succ_cons]
          exact ⟨_, .there head merges⟩

/-- No merged cube is an implicant exactly when no larger neighbour is. -/
theorem forall_merges_iff_forall_release {cubes : List Cube} {cube : Cube} :
    (∀ rights cells, Merges cube.cells rights cells →
        ¬OnlyCovers cubes cells) ↔
      ∀ index (below : index < cube.cells.length),
        cube.cells[index].2 ≠ .free →
          ¬IsImplicant cubes (cube.release index) := by
  constructor
  · intro maximal index below fixed implicant
    obtain ⟨rights, merges⟩ := exists_merges_modify below fixed
    exact maximal rights _ merges (isImplicant_iff.mp implicant)
  · intro maximal rights cells merges listed
    obtain ⟨index, below, fixed, equality⟩ := merges.exists_modify
    apply maximal index below fixed
    rw [isImplicant_iff, release, ← equality]
    exact listed

/-- For points over the same variables, merging comes to an end without a fault
and lists each maximal implicant once and nothing else. -/
theorem primes_are_the_maximal_implicants {atoms : List Atom}
    {cubes : List Cube} (isOver : Over atoms cubes)
    (points : ∀ cube ∈ cubes, IsPoint cube.cells) :
    MergesOut (distinct cubes) [] (primes cubes) ∧
      (primes cubes).Nodup ∧
      ∀ cube : Cube, cube ∈ primes cubes ↔
        cube.atoms = atoms ∧ IsMaximalImplicant cubes cube := by
  refine ⟨mergesOut_primes isOver, nodup_primes cubes, ?_⟩
  intro cube
  rw [mem_primes_iff_of_points isOver points, ← isImplicant_iff,
    forall_merges_iff_forall_release]
  constructor
  · rintro ⟨cubeAtoms, implicant, maximal⟩
    exact ⟨cubeAtoms, implicant, maximal⟩
  · rintro ⟨cubeAtoms, implicant, maximal⟩
    exact ⟨cubeAtoms, implicant, maximal⟩

/-- Six of the eight points of three variables, one of them listed twice, have
six maximal implicants; each covers two neighbouring points. -/
theorem primes_are_the_maximal_implicants_cycle :
    let point (first second third : Mark) : Cube :=
      ⟨[(⟨"x"⟩, first), (⟨"y"⟩, second), (⟨"z"⟩, third)]⟩
    let cubes : List Cube :=
      [point .zero .zero .zero, point .zero .zero .one, point .zero .one .zero,
        point .one .zero .one, point .one .one .zero, point .one .one .one,
        point .zero .zero .one]
    Over [⟨"x"⟩, ⟨"y"⟩, ⟨"z"⟩] cubes ∧ (∀ cube ∈ cubes, IsPoint cube.cells) ∧
      (primes cubes).length = 6 ∧
      IsMaximalImplicant cubes (point .zero .zero .free) ∧
      ¬IsMaximalImplicant cubes (point .zero .zero .one) := by
  intro point cubes
  have isOver : Over [⟨"x"⟩, ⟨"y"⟩, ⟨"z"⟩] cubes := by
    simp only [Over]
    decide
  have points : ∀ cube ∈ cubes, IsPoint cube.cells := by
    simp only [IsPoint]
    decide
  obtain ⟨_, _, members⟩ := primes_are_the_maximal_implicants isOver points
  refine ⟨isOver, points, by decide, ?_, ?_⟩
  · exact ((members _).mp (by decide)).2
  · intro maximal
    have listed := (members (point .zero .zero .one)).mpr ⟨rfl, maximal⟩
    revert listed
    decide

end Cube

end Possibilistic
