import Mathlib.Data.Nat.Init
import Possibilistic.Proofs.Degree.Complement

/-!
# The points of a grid

The points with so many coordinates on a grid are listed with the last
coordinate varying fastest.  Where the grid ascends, a point comes after every
point that is lexicographically smaller, and the first points vary their last
coordinate only.
-/

namespace Possibilistic

namespace FactSet

section

variable {α β : Type}

/-- The points with so many coordinates, the last varying fastest. -/
def points (grid : List α) : Nat → List (List α)
  | 0 => [[]]
  | coordinates + 1 =>
      grid.flatMap fun value =>
        (points grid coordinates).map fun point => value :: point

theorem mem_points {grid : List α} {coordinates : Nat} {point : List α} :
    point ∈ points grid coordinates ↔
      point.length = coordinates ∧ ∀ value ∈ point, value ∈ grid := by
  induction coordinates generalizing point with
  | zero =>
      rw [points, List.mem_singleton, List.length_eq_zero_iff]
      constructor
      · rintro rfl
        simp
      · exact And.left
  | succ coordinates ih =>
      simp only [points, List.mem_flatMap, List.mem_map, ih]
      constructor
      · rintro ⟨value, onGrid, rest, ⟨length, inner⟩, rfl⟩
        exact ⟨congrArg (· + 1) length,
          List.forall_mem_cons.mpr ⟨onGrid, inner⟩⟩
      · rintro ⟨length, onGrid⟩
        cases point with
        | nil => cases length
        | cons value rest =>
            obtain ⟨first, inner⟩ := List.forall_mem_cons.mp onGrid
            exact ⟨value, first, rest, ⟨Nat.succ.inj length, inner⟩, rfl⟩

/-- The points of a grid that is given through other data. -/
theorem points_map (image : α → β) (grid : List α) (coordinates : Nat) :
    points (grid.map image) coordinates =
      (points grid coordinates).map (List.map image) := by
  induction coordinates with
  | zero => rfl
  | succ coordinates ih =>
      simp only [points, ih, List.flatMap_map, List.map_flatMap, List.map_map]
      rfl

/-- The first points vary their last coordinate. -/
theorem exists_points_succ_eq (first : α) (grid : List α) (coordinates : Nat) :
    ∃ later, points (first :: grid) (coordinates + 1) =
      ((first :: grid).map fun value =>
        List.replicate coordinates first ++ [value]) ++ later := by
  induction coordinates with
  | zero =>
      refine ⟨[], ?_⟩
      rw [List.append_nil]
      exact List.map_eq_flatMap.symm
  | succ coordinates ih =>
      obtain ⟨later, equality⟩ := ih
      rw [points, List.flatMap_cons, equality, List.map_append, List.map_map,
        List.append_assoc]
      exact ⟨_, rfl⟩

/-- The first point of all. -/
theorem exists_points_eq_cons (first : α) (grid : List α)
    (coordinates : Nat) :
    ∃ later, points (first :: grid) coordinates =
      List.replicate coordinates first :: later := by
  cases coordinates with
  | zero => exact ⟨[], rfl⟩
  | succ coordinates =>
      obtain ⟨later, equality⟩ := exists_points_succ_eq first grid coordinates
      rw [equality, List.map_cons, List.cons_append, List.replicate_succ']
      exact ⟨_, rfl⟩

end

/-- A list of points has every lexicographically smaller one of its points
before each of its points. -/
def ListsSmallerBefore (points : List (List Degree)) : Prop :=
  ∀ before point after, points = before ++ point :: after →
    ∀ other ∈ points, other.map Degree.units < point.map Degree.units →
      other ∈ before

/-- Points that begin with a least number are only preceded by points that begin
with it and go on smaller. -/
theorem exists_of_cons_lt {value least : Degree} {point rest : List Degree}
    (sameSign : value.negativeZero = least.negativeZero)
    (ordered : least ≤ value)
    (smaller : (value :: point).map Degree.units <
      (least :: rest).map Degree.units) :
    value = least ∧ point.map Degree.units < rest.map Degree.units := by
  rw [List.map_cons, List.map_cons, List.cons_lt_cons_iff] at smaller
  rcases smaller with below | ⟨same, inner⟩
  · exact absurd below (Nat.not_lt_of_le ordered)
  · exact ⟨Degree.ext_units same sameSign, inner⟩

/-- A point that is smaller than one of the block with a least number stands
before it in the block. -/
theorem mem_before_of_block {inner before after : List (List Degree)}
    {value least : Degree} {continued point : List Degree}
    (innerOrdered : ListsSmallerBefore inner)
    (block : (inner.map fun rest => least :: rest) = before ++ point :: after)
    (sameSign : value.negativeZero = least.negativeZero)
    (ordered : least ≤ value) (inInner : continued ∈ inner)
    (smaller : (value :: continued).map Degree.units <
      point.map Degree.units) :
    value :: continued ∈ before := by
  obtain ⟨earlier, later, innerSplit, rfl, laterImage⟩ :=
    List.map_eq_append_iff.mp block
  obtain ⟨rest, others, rfl, rfl, _⟩ := List.map_eq_cons_iff.mp laterImage
  obtain ⟨rfl, innerSmaller⟩ := exists_of_cons_lt sameSign ordered smaller
  exact List.mem_map_of_mem
    (innerOrdered _ _ _ innerSplit continued inInner innerSmaller)

/-- The points of one block after another: a smaller point is in an earlier
block, or earlier in the same block. -/
theorem listsSmallerBefore_flatMap {grid : List Degree}
    {inner : List (List Degree)} (ascending : grid.Pairwise (· ≤ ·))
    (unsigned : ∀ degree ∈ grid, degree.negativeZero = false)
    (innerOrdered : ListsSmallerBefore inner) :
    ListsSmallerBefore
      (grid.flatMap fun value => inner.map fun point => value :: point) := by
  induction grid with
  | nil =>
      intro before point after split
      cases before <;> cases split
  | cons least rest ih =>
      obtain ⟨below, restAscending⟩ := List.pairwise_cons.mp ascending
      obtain ⟨leastUnsigned, restUnsigned⟩ :=
        List.forall_mem_cons.mp unsigned
      intro before point after split other inBlocks smaller
      have member := inBlocks
      rw [List.flatMap_cons] at split member
      have inLater : ∀ remaining,
          before = (inner.map fun point => least :: point) ++ remaining →
          (rest.flatMap fun value => inner.map fun point => value :: point) =
            remaining ++ point :: after →
          other ∈ before := by
        rintro remaining rfl restSplit
        rcases List.mem_append.mp member with inFirst | inRest
        · exact List.mem_append_left _ inFirst
        · exact List.mem_append_right _
            (ih restAscending restUnsigned _ _ _ restSplit other inRest smaller)
      rcases List.append_eq_append_iff.mp split with
        ⟨remaining, isBefore, restSplit⟩ | ⟨block, blockSplit, pointSplit⟩
      · exact inLater remaining isBefore restSplit
      · cases block with
        | nil =>
            refine inLater [] ?_ pointSplit.symm
            rw [blockSplit]
            simp
        | cons head tail =>
            obtain ⟨rfl, _⟩ := List.cons.inj pointSplit
            obtain ⟨value, onGrid, image⟩ := List.mem_flatMap.mp inBlocks
            obtain ⟨continued, inInner, rfl⟩ := List.mem_map.mp image
            have leastLe : least ≤ value := by
              rcases List.mem_cons.mp onGrid with rfl | inRest
              · exact Nat.le_refl _
              · exact below value inRest
            exact mem_before_of_block innerOrdered blockSplit
              ((unsigned value onGrid).trans leastUnsigned.symm) leastLe
              inInner smaller

/-- The points of an ascending grid are listed in lexicographic order, but for
repetitions. -/
theorem listsSmallerBefore_points {grid : List Degree}
    (ascending : grid.Pairwise (· ≤ ·))
    (unsigned : ∀ degree ∈ grid, degree.negativeZero = false)
    (coordinates : Nat) : ListsSmallerBefore (points grid coordinates) := by
  induction coordinates with
  | zero =>
      intro before point after split other member smaller
      have isLast : point ∈ points grid 0 := split ▸ by simp
      obtain rfl : point = [] := List.mem_singleton.mp isLast
      exact absurd smaller (List.not_lt_nil _)
  | succ coordinates ih =>
      exact listsSmallerBefore_flatMap ascending unsigned ih

end FactSet

end Possibilistic
