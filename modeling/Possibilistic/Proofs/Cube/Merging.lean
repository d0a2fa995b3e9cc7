import Mathlib.Data.List.Forall2
import Possibilistic.Cube.Basic

/-!
# Merging cubes

`Merges` describes the same merges as the executable search for the one variable
in which two cubes differ.  A merged cube frees this variable, and it matches
the points that one of the two cubes matches.
-/

namespace Possibilistic

namespace Mark

/-- The other fixed value. -/
def opposite : Mark → Mark
  | .zero => .one
  | .one => .zero
  | .free => .free

theorem opposite_opposite (mark : Mark) : mark.opposite.opposite = mark := by
  cases mark <;> rfl

theorem opposite_eq_free_iff {mark : Mark} :
    mark.opposite = .free ↔ mark = .free := by
  cases mark <;> simp [opposite]

theorem eq_opposite_of_ne {left right : Mark} (different : left ≠ right)
    (leftFixed : left ≠ .free) (rightFixed : right ≠ .free) :
    right = left.opposite := by
  cases left <;> cases right <;> simp_all [opposite]

theorem ne_opposite {mark : Mark} (fixed : mark ≠ .free) :
    mark ≠ mark.opposite := by
  cases mark <;> simp_all [opposite]

theorem covers_iff {general special : Mark} :
    general.covers special = true ↔ general = .free ∨ general = special := by
  simp [covers]

theorem covers_trans {first second third : Mark}
    (left : first.covers second = true) (right : second.covers third = true) :
    first.covers third = true := by
  rw [covers_iff] at left right ⊢
  rcases left with free | same
  · exact .inl free
  · rw [same]
    exact right

/-- A fixed value and the opposite one cover all fixed values. -/
theorem covers_or_opposite_covers {mark point : Mark} (fixed : mark ≠ .free)
    (pointFixed : point ≠ .free) :
    mark.covers point = true ∨ mark.opposite.covers point = true := by
  cases mark <;> cases point <;> simp_all [covers, opposite]

end Mark

namespace Cube

/-- Merging cells that differ in the fixed value of exactly one variable. -/
inductive Merges :
    List (Atom × Mark) → List (Atom × Mark) → List (Atom × Mark) → Prop where
  | here {atom : Atom} {mark : Mark} (fixed : mark ≠ .free)
      (rest : List (Atom × Mark)) :
      Merges ((atom, mark) :: rest) ((atom, mark.opposite) :: rest)
        ((atom, .free) :: rest)
  | there {lefts rights merged : List (Atom × Mark)} (cell : Atom × Mark) :
      Merges lefts rights merged →
      Merges (cell :: lefts) (cell :: rights) (cell :: merged)

/-- Cells that begin with different marks merge there or not at all. -/
theorem mergeCells?_cons_eq_some_iff_of_ne {atom : Atom} {left right : Mark}
    {lefts rights merged : List (Atom × Mark)}
    (sameAtoms : lefts.map Prod.fst = rights.map Prod.fst)
    (different : left ≠ right) :
    mergeCells? ((atom, left) :: lefts) ((atom, right) :: rights) =
        some merged ↔
      Merges ((atom, left) :: lefts) ((atom, right) :: rights) merged := by
  rw [mergeCells?, if_neg different]
  constructor
  · intro found
    split at found
    · cases found
    · rename_i bothFixed
      split at found
      · rename_i sameMarks
        cases found
        have sameRest : lefts = rights :=
          (List.zip_of_prod sameAtoms sameMarks).trans
            (List.zip_of_prod rfl rfl).symm
        have isOpposite : right = left.opposite :=
          Mark.eq_opposite_of_ne different
            (fun free => bothFixed (by simp [free]))
            (fun free => bothFixed (by simp [free]))
        rw [sameRest, isOpposite]
        exact .here (fun free => bothFixed (by simp [free])) _
      · cases found
  · intro merges
    cases merges with
    | here fixed =>
        have rightFixed : left.opposite ≠ .free := fun free =>
          fixed (Mark.opposite_eq_free_iff.mp free)
        simp [fixed, rightFixed]
    | there _ rest => exact absurd rfl different

theorem mergeCells?_eq_some_iff {lefts rights merged : List (Atom × Mark)}
    (sameAtoms : lefts.map Prod.fst = rights.map Prod.fst) :
    mergeCells? lefts rights = some merged ↔ Merges lefts rights merged := by
  induction lefts generalizing rights merged with
  | nil =>
      constructor
      · simp [mergeCells?]
      · intro merges
        cases merges
  | cons head tail ih =>
      obtain ⟨atom, left⟩ := head
      cases rights with
      | nil => simp at sameAtoms
      | cons otherHead otherTail =>
          obtain ⟨other, right⟩ := otherHead
          simp only [List.map_cons, List.cons.injEq] at sameAtoms
          obtain ⟨rfl, sameTail⟩ := sameAtoms
          by_cases same : left = right
          · rw [mergeCells?, if_pos same]
            constructor
            · intro found
              obtain ⟨rest, restFound, equality⟩ :=
                Option.map_eq_some_iff.mp found
              rw [← equality, same]
              exact .there _ ((ih sameTail).mp restFound)
            · intro merges
              cases merges with
              | here fixed => exact absurd same (Mark.ne_opposite fixed)
              | there _ rest =>
                  exact Option.map_eq_some_iff.mpr
                    ⟨_, (ih sameTail).mpr rest, rfl⟩
          · exact mergeCells?_cons_eq_some_iff_of_ne sameTail same

namespace Merges

variable {lefts rights merged : List (Atom × Mark)}
  (merges : Merges lefts rights merged)

include merges

theorem symm : Merges rights lefts merged := by
  induction merges with
  | here fixed rest =>
      rename_i atom mark
      have reversed := @here atom mark.opposite
        (fun free => fixed (Mark.opposite_eq_free_iff.mp free)) rest
      rw [Mark.opposite_opposite] at reversed
      exact reversed
  | there cell _ ih => exact .there cell ih

theorem map_fst : merged.map Prod.fst = lefts.map Prod.fst := by
  induction merges with
  | here => rfl
  | there cell _ ih => rw [List.map_cons, List.map_cons, ih]

theorem ne : lefts ≠ rights := by
  induction merges with
  | here fixed =>
      intro same
      simp only [List.cons.injEq, Prod.mk.injEq, true_and, and_true] at same
      exact Mark.ne_opposite fixed same
  | there cell _ ih =>
      intro same
      exact ih (List.cons.inj same).2

end Merges

/-- Over the same variables, every value that matches the second cells matches
the first. -/
def Covers (general special : List (Atom × Mark)) : Prop :=
  List.Forall₂ (fun left right => left.1 = right.1 ∧
    left.2.covers right.2 = true) general special

theorem covers_iff {general special : Cube}
    (sameAtoms : general.atoms = special.atoms) :
    general.covers special = true ↔ Covers general.cells special.cells := by
  obtain ⟨generals⟩ := general
  obtain ⟨specials⟩ := special
  simp only [covers, atoms] at sameAtoms ⊢
  induction generals generalizing specials with
  | nil =>
      cases specials with
      | nil => simp [Covers]
      | cons head tail => simp at sameAtoms
  | cons head tail ih =>
      cases specials with
      | nil => simp at sameAtoms
      | cons otherHead otherTail =>
          simp only [List.map_cons, List.cons.injEq] at sameAtoms
          rw [List.zip_cons_cons, List.all_cons, Bool.and_eq_true,
            ih otherTail sameAtoms.2, Covers, Covers, List.forall₂_cons]
          simp [sameAtoms.1]

theorem Covers.refl (cells : List (Atom × Mark)) : Covers cells cells :=
  List.forall₂_same.mpr fun _ _ => ⟨rfl, by simp [Mark.covers]⟩

theorem Covers.trans {first second third : List (Atom × Mark)}
    (left : Covers first second) (right : Covers second third) :
    Covers first third := by
  induction left generalizing third with
  | nil => exact right
  | cons head _ ih =>
      cases right with
      | cons otherHead otherTail =>
          exact .cons ⟨head.1.trans otherHead.1,
            Mark.covers_trans head.2 otherHead.2⟩ (ih otherTail)

theorem Covers.map_fst {general special : List (Atom × Mark)}
    (covered : Covers general special) :
    general.map Prod.fst = special.map Prod.fst := by
  induction covered with
  | nil => rfl
  | cons head _ ih => rw [List.map_cons, List.map_cons, head.1, ih]

/-- No variable is left free. -/
def IsPoint (cells : List (Atom × Mark)) : Prop :=
  ∀ cell ∈ cells, cell.2 ≠ .free

theorem Covers.eq_of_isPoint {general special : List (Atom × Mark)}
    (covered : Covers general special) (isPoint : IsPoint general) :
    general = special := by
  induction covered with
  | nil => rfl
  | @cons left right _ _ head _ ih =>
      obtain ⟨fixed, restFixed⟩ := List.forall_mem_cons.mp isPoint
      have sameMark := (Mark.covers_iff.mp head.2).resolve_left fixed
      rw [ih restFixed, Prod.ext head.1 sameMark]

/-- A merged cube matches the points that one of the two cubes matches. -/
theorem Merges.covers_point_iff {lefts rights merged point : List (Atom × Mark)}
    (merges : Merges lefts rights merged) (isPoint : IsPoint point) :
    Covers merged point ↔ Covers lefts point ∨ Covers rights point := by
  induction merges generalizing point with
  | @here atom mark fixed rest =>
      cases point with
      | nil => simp [Covers]
      | cons head tail =>
          have pointFixed := isPoint head List.mem_cons_self
          simp only [Covers, List.forall₂_cons, ← or_and_right, ← and_or_left,
            Mark.covers_or_opposite_covers fixed pointFixed]
          simp [Mark.covers]
  | there cell _ ih =>
      cases point with
      | nil => simp [Covers]
      | cons head tail =>
          have tailPoint : IsPoint tail := fun other member =>
            isPoint other (List.mem_cons_of_mem _ member)
          have split := ih tailPoint
          simp only [Covers] at split
          simp only [Covers, List.forall₂_cons, split, and_or_left]

theorem Merges.covers_left {lefts rights merged : List (Atom × Mark)}
    (merges : Merges lefts rights merged) : Covers merged lefts := by
  induction merges with
  | here fixed rest =>
      exact .cons ⟨rfl, by simp [Mark.covers]⟩ (Covers.refl rest)
  | there cell _ ih => exact .cons ⟨rfl, by simp [Mark.covers]⟩ ih

/-- How many variables are left free. -/
def freedom (cells : List (Atom × Mark)) : Nat :=
  cells.countP fun cell => cell.2 = .free

theorem freedom_eq_zero_iff {cells : List (Atom × Mark)} :
    freedom cells = 0 ↔ IsPoint cells := by
  simp [freedom, List.countP_eq_zero, IsPoint]

theorem Merges.freedom_eq {lefts rights merged : List (Atom × Mark)}
    (merges : Merges lefts rights merged) :
    freedom merged = freedom lefts + 1 := by
  induction merges with
  | here fixed rest => simp [freedom, fixed]
  | there cell _ ih =>
      simp only [freedom, List.countP_cons] at ih ⊢
      omega

/-- A cube with a free variable is merged from its two halves. -/
theorem exists_merges_of_free {cells : List (Atom × Mark)}
    (free : 0 < freedom cells) : ∃ lefts rights, Merges lefts rights cells := by
  induction cells with
  | nil => simp [freedom] at free
  | cons head tail ih =>
      obtain ⟨atom, mark⟩ := head
      by_cases headFree : mark = .free
      · subst headFree
        have zeroFixed : Mark.zero ≠ .free := nofun
        exact ⟨_, _, .here zeroFixed tail⟩
      · have tailFree : 0 < freedom tail := by
          simpa [freedom, headFree] using free
        obtain ⟨lefts, rights, merges⟩ := ih tailFree
        exact ⟨_, _, .there (atom, mark) merges⟩

/-- A cube with a fixed variable is one half of a merged cube. -/
theorem exists_merges_of_fixed {cells : List (Atom × Mark)}
    (fixed : freedom cells < cells.length) :
    ∃ rights merged, Merges cells rights merged := by
  induction cells with
  | nil => simp at fixed
  | cons head tail ih =>
      obtain ⟨atom, mark⟩ := head
      by_cases headFree : mark = .free
      · have tailFixed : freedom tail < tail.length := by
          simpa [freedom, headFree] using fixed
        obtain ⟨rights, merged, merges⟩ := ih tailFixed
        exact ⟨_, _, .there (atom, mark) merges⟩
      · exact ⟨_, _, .here headFree tail⟩

theorem merge?_eq_some_iff {left right merged : Cube}
    (sameAtoms : left.atoms = right.atoms) :
    left.merge? right = some merged ↔
      Merges left.cells right.cells merged.cells := by
  rw [← mergeCells?_eq_some_iff sameAtoms, merge?]
  obtain ⟨cells⟩ := merged
  constructor
  · intro found
    obtain ⟨other, otherFound, equality⟩ := Option.map_eq_some_iff.mp found
    cases equality
    exact otherFound
  · intro found
    exact Option.map_eq_some_iff.mpr ⟨cells, found, rfl⟩

end Cube

end Possibilistic
