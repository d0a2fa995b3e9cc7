import Mathlib.Data.List.Induction
import Mathlib.Data.List.Sort
import Possibilistic.Atom

/-!
# Vocabularies

A vocabulary has the atoms that it was built from, in ascending order, so it is
its own vocabulary.
-/

namespace Possibilistic

namespace Atom

theorem mem_insertSorted {atom other : Atom} {atoms : List Atom} :
    other ∈ insertSorted atom atoms ↔ other = atom ∨ other ∈ atoms := by
  induction atoms with
  | nil => simp [insertSorted]
  | cons head tail ih =>
      rw [insertSorted]
      split
      · simp
      · split
        · rename_i same
          subst same
          simp
        · simp only [List.mem_cons, ih]
          exact or_left_comm

theorem mem_vocabulary {atom : Atom} {atoms : List Atom} :
    atom ∈ vocabulary atoms ↔ atom ∈ atoms := by
  have general : ∀ start : List Atom,
      atom ∈ atoms.foldl (fun known new => insertSorted new known) start ↔
        atom ∈ start ∨ atom ∈ atoms := by
    induction atoms with
    | nil => simp
    | cons head tail ih =>
        intro start
        rw [List.foldl_cons, ih, mem_insertSorted, List.mem_cons, or_assoc]
        exact or_left_comm
  simpa [vocabulary] using general []

/-- Atoms in ascending order of their names. -/
def Ascending (atoms : List Atom) : Prop :=
  atoms.Pairwise fun left right => left.name < right.name

theorem ascending_insertSorted (atom : Atom) {atoms : List Atom}
    (ascending : Ascending atoms) : Ascending (insertSorted atom atoms) := by
  induction atoms with
  | nil => exact List.pairwise_singleton _ _
  | cons head tail ih =>
      obtain ⟨headBelow, tailAscending⟩ := List.pairwise_cons.mp ascending
      simp only [insertSorted]
      split
      · rename_i below
        apply List.pairwise_cons.mpr
        refine ⟨?_, ascending⟩
        intro other member
        rcases List.mem_cons.mp member with same | inTail
        · exact same ▸ below
        · exact String.lt_trans below (headBelow other inTail)
      · rename_i notBelow
        split
        · exact ascending
        · rename_i different
          apply List.pairwise_cons.mpr
          refine ⟨?_, ih tailAscending⟩
          intro other member
          rcases mem_insertSorted.mp member with same | inTail
          · rw [same]
            apply String.not_le.mp
            intro reversed
            have sameName : atom.name = head.name :=
              String.le_antisymm reversed (String.not_lt.mp notBelow)
            exact different (congrArg Atom.mk sameName)
          · exact headBelow other inTail

theorem vocabulary_append_singleton (atoms : List Atom) (atom : Atom) :
    vocabulary (atoms ++ [atom]) = insertSorted atom (vocabulary atoms) := by
  simp [vocabulary]

theorem ascending_vocabulary (atoms : List Atom) :
    Ascending (vocabulary atoms) := by
  induction atoms using List.reverseRecOn with
  | nil => exact List.Pairwise.nil
  | append_singleton atoms atom ih =>
      rw [vocabulary_append_singleton]
      exact ascending_insertSorted atom ih

theorem insertSorted_of_above {atom : Atom} {atoms : List Atom}
    (above : ∀ other ∈ atoms, other.name < atom.name) :
    insertSorted atom atoms = atoms ++ [atom] := by
  induction atoms with
  | nil => rfl
  | cons head tail ih =>
      have headBelow : head.name < atom.name := above head List.mem_cons_self
      have notBelow : ¬atom.name < head.name := fun reversed =>
        String.lt_irrefl _ (String.lt_trans headBelow reversed)
      have different : atom ≠ head := by
        intro same
        rw [same] at headBelow
        exact String.lt_irrefl _ headBelow
      have tailAbove : ∀ other ∈ tail, other.name < atom.name :=
        fun other member => above other (List.mem_cons_of_mem _ member)
      rw [insertSorted, if_neg notBelow, if_neg different, ih tailAbove,
        List.cons_append]

/-- Ascending atoms are their own vocabulary. -/
theorem vocabulary_of_ascending {atoms : List Atom}
    (ascending : Ascending atoms) : vocabulary atoms = atoms := by
  induction atoms using List.reverseRecOn with
  | nil => rfl
  | append_singleton atoms atom ih =>
      obtain ⟨earlier, _, below⟩ := List.pairwise_append.mp ascending
      rw [vocabulary_append_singleton, ih earlier]
      apply insertSorted_of_above
      intro other member
      exact below other member atom List.mem_cons_self

instance : @Std.Irrefl Atom (fun left right => left.name < right.name) :=
  ⟨fun atom => String.lt_irrefl atom.name⟩

instance : @Std.Antisymm Atom (fun left right => left.name < right.name) :=
  ⟨fun _ _ below above => absurd (String.lt_trans below above)
    (String.lt_irrefl _)⟩

/-- Ascending atoms that are no constants, as the atoms of a formula are. -/
structure IsVocabulary (atoms : List Atom) : Prop where
  ascending : Ascending atoms
  nonconstant : ∀ atom ∈ atoms, atom.constant? = none

theorem nodup_of_ascending {atoms : List Atom} (ascending : Ascending atoms) :
    atoms.Nodup := by
  apply List.Pairwise.imp _ ascending
  intro left right below same
  rw [same] at below
  exact String.lt_irrefl _ below

/-- Ascending atoms are known by their members. -/
theorem eq_of_ascending {left right : List Atom}
    (leftAscending : Ascending left) (rightAscending : Ascending right)
    (sameMembers : ∀ atom, atom ∈ left ↔ atom ∈ right) : left = right :=
  List.Pairwise.eq_of_mem_iff leftAscending rightAscending sameMembers

end Atom

end Possibilistic
