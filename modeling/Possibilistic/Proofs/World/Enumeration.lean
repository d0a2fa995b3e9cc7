import Mathlib.Data.Finset.Card
import Possibilistic.Inquiry
import Possibilistic.Proofs.Interpretation.Equality
import Possibilistic.Proofs.World.Crisp
import Possibilistic.Proofs.World.Numbering

/-!
# Worlds as crisp interpretations

The worlds of a vocabulary are the crisp interpretations of its atoms, each once.
They are counted by the subsets of the vocabulary, and equal worlds have equal
numbers.
-/

namespace Possibilistic

-- Powers of natural numbers are those of the core library everywhere.
attribute [local instance (2000)] instPowNat

theorem Atom.length_vocabulary (atoms : List Atom) :
    (vocabulary atoms).length = atoms.toFinset.card := by
  have sameMembers : (vocabulary atoms).toFinset = atoms.toFinset := by
    ext atom
    rw [List.mem_toFinset, List.mem_toFinset, mem_vocabulary]
  rw [← sameMembers, List.toFinset_card_of_nodup
    (nodup_of_ascending (ascending_vocabulary atoms))]

theorem Atom.vocabulary_ne_nil {atoms : List Atom} (nonempty : atoms ≠ []) :
    vocabulary atoms ≠ [] := by
  obtain ⟨atom, member⟩ := List.exists_mem_of_ne_nil atoms nonempty
  exact List.ne_nil_of_mem (mem_vocabulary.mpr member)

namespace World

/-- The listed interpretations are the crisp ones of just these atoms, each
once. -/
structure Enumerates (atoms : List Atom) (worlds : List Interpretation) :
    Prop where
  crisp : ∀ world ∈ worlds,
    world.isCrisp = true ∧ world.atoms = Atom.vocabulary atoms
  different : worlds.Pairwise fun left right => (left == right) = false
  complete : ∀ interpretation : Interpretation,
    interpretation.isCrisp = true →
      interpretation.atoms = Atom.vocabulary atoms →
        ∃ world ∈ worlds, (world == interpretation) = true

theorem count_vocabulary (atoms : List Atom) :
    count (Atom.vocabulary atoms) = 2 ^ atoms.toFinset.card := by
  rw [count, Atom.length_vocabulary]

theorem length_all (atoms : List Atom) : (all atoms).length = count atoms := by
  simp [all, firstWorlds]

theorem isCrisp_bitDegree (chosen : Bool) : (bitDegree chosen).IsCrisp := by
  cases chosen with
  | true => exact .inr (Degree.isOne_iff.mpr rfl)
  | false => exact .inl (Degree.isZero_iff.mpr rfl)

theorem units_bitDegree_eq_iff {left right : Bool} :
    (bitDegree left).units = (bitDegree right).units ↔ left = right := by
  constructor
  · intro same
    rw [← isOne_bitDegree left, ← isOne_bitDegree right, Degree.isOne,
      Degree.isOne, same]
  · intro same
    rw [same]

section

variable {atoms : List Atom} (ascending : Atom.Ascending atoms)

include ascending

theorem isCrisp_of_mem_all {world : Interpretation}
    (inAll : world ∈ all atoms) : world.isCrisp = true := by
  apply Interpretation.isCrisp_iff.mpr
  intro atom inWorld
  rw [atoms_of_mem_all ascending inAll] at inWorld
  obtain ⟨chosen, equality⟩ := exists_bitDegree_of_mem_all inAll inWorld
  rw [equality]
  exact isCrisp_bitDegree chosen

/-- A world is equal to the crisp interpretations that hold the same atoms. -/
theorem beq_iff_of_mem_all {world interpretation : Interpretation}
    (inAll : world ∈ all atoms)
    (crisp : interpretation.isCrisp = true)
    (sameAtoms : interpretation.atoms = atoms) :
    (world == interpretation) = true ↔
      ∀ atom ∈ atoms,
        (world.assigned atom).isOne = (interpretation.assigned atom).isOne := by
  have worldAtoms := atoms_of_mem_all ascending inAll
  rw [Interpretation.beq_iff, worldAtoms, sameAtoms, and_iff_right rfl]
  apply forall₂_congr
  intro atom member
  obtain ⟨chosen, equality⟩ := exists_bitDegree_of_mem_all inAll member
  have decided : (interpretation.assigned atom).IsCrisp :=
    Interpretation.isCrisp_iff.mp crisp atom (sameAtoms ▸ member)
  rw [equality, ← units_bitDegree_isOne decided, units_bitDegree_eq_iff,
    isOne_bitDegree]

/-- Different numbers are different worlds. -/
theorem beq_numbered_iff {number other : Nat} (inRange : number < count atoms)
    (otherInRange : other < count atoms) :
    (numbered atoms (number : Nat) == numbered atoms (other : Nat)) = true ↔
      number = other := by
  have inAll : numbered atoms (number : Nat) ∈ all atoms :=
    mem_all.mpr ⟨number, inRange, rfl⟩
  have otherInAll : numbered atoms (other : Nat) ∈ all atoms :=
    mem_all.mpr ⟨other, otherInRange, rfl⟩
  rw [beq_iff_of_mem_all ascending inAll
    (isCrisp_of_mem_all ascending otherInAll)
    (atoms_of_mem_all ascending otherInAll)]
  constructor
  · exact eq_of_assigned_eq (Atom.nodup_of_ascending ascending) inRange
      otherInRange
  · intro same atom _
    rw [same]

theorem pairwise_different_all :
    (all atoms).Pairwise fun left right => (left == right) = false := by
  rw [all, firstWorlds, Nat.min_self, List.pairwise_map]
  apply List.pairwise_lt_range.imp_of_mem
  intro number other inRange otherInRange below
  apply Bool.eq_false_iff.mpr
  intro same
  have sameNumber := (beq_numbered_iff ascending (List.mem_range.mp inRange)
    (List.mem_range.mp otherInRange)).mp same
  exact Nat.ne_of_lt below sameNumber

end

/-- The worlds of the vocabulary of some atoms, which may be listed in any order
and more than once. -/
theorem enumerates_all (atoms : List Atom) :
    Enumerates atoms (all (Atom.vocabulary atoms)) := by
  have ascending := Atom.ascending_vocabulary atoms
  refine ⟨?_, pairwise_different_all ascending, ?_⟩
  · intro world inAll
    exact ⟨isCrisp_of_mem_all ascending inAll,
      atoms_of_mem_all ascending inAll⟩
  · intro interpretation crisp sameAtoms
    obtain ⟨world, inAll, chosen⟩ := exists_mem_all (Atom.vocabulary atoms)
      fun atom => (interpretation.assigned atom).isOne
    refine ⟨world, inAll, ?_⟩
    apply (beq_iff_of_mem_all ascending inAll crisp sameAtoms).mpr
    intro atom member
    rw [chosen atom member, isOne_bitDegree]

/-- Who takes as many worlds as there are gets all of them. -/
theorem value_taken {atoms : List Atom} {most : Nat}
    (enough : count atoms ≤ most) (limit : Int) :
    (taken limit atoms most).value = all atoms := by
  have answer : (taken limit atoms most).value = firstWorlds atoms most := by
    unfold taken
    split <;> rfl
  rw [answer, all, firstWorlds, firstWorlds, Nat.min_eq_right enough,
    Nat.min_self]

end World

end Possibilistic
