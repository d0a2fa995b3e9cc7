import Mathlib.Data.List.Nodup
import Possibilistic.Proofs.World.Valuation

/-!
# The numbering of worlds

Bit `i` of a number tells the truth of atom `i`, so worlds of one vocabulary
that agree on all atoms have the same number.  A world assigns its vocabulary
and nothing else.
-/

namespace Possibilistic

namespace World

theorem mem_keys_assignBits {number : Int} {atom : Atom} {atoms : List Atom}
    (position : Nat) (start : Interpretation) :
    atom ∈ (assignBits number position atoms start).degrees.keys ↔
      atom ∈ start.degrees.keys ∨ atom ∈ atoms := by
  induction atoms generalizing position start with
  | nil => simp [assignBits]
  | cons head tail ih =>
      have assigned : atom ∈ (start.assign head
          (bitDegree (bit number position))).degrees.keys ↔
            atom = head ∨ atom ∈ start.degrees.keys :=
        ArrivalMap.mem_keys_insertEntry
      rw [assignBits, ih, assigned, List.mem_cons, or_assoc, or_left_comm]

/-- The vocabulary of a world is the one that it was made for. -/
theorem atoms_of_mem_all {atoms : List Atom} (ascending : Atom.Ascending atoms)
    {world : Interpretation} (inAll : world ∈ all atoms) :
    world.atoms = atoms := by
  obtain ⟨number, _, equality⟩ := mem_all.mp inAll
  rw [← equality, numbered]
  apply Atom.eq_of_ascending (Atom.ascending_vocabulary _) ascending
  intro atom
  rw [Atom.mem_vocabulary, mem_keys_assignBits]
  simp [Interpretation.empty, ArrivalMap.empty, ArrivalMap.keys]

theorem assigned_numbered {atoms : List Atom} (distinct : atoms.Nodup)
    (number : Nat) {index : Nat} (below : index < atoms.length) :
    (numbered atoms (number : Nat)).assigned atoms[index] =
      bitDegree (number.testBit index) := by
  have bits : ∀ other (inRange : other < atoms.length),
      bit (number : Nat) (0 + other) =
        number.testBit (atoms.idxOf atoms[other]) := by
    intro other inRange
    rw [Nat.zero_add, bit_natCast, distinct.idxOf_getElem other inRange]
  rw [numbered, @assigned_assignBits number 0 atoms
      (fun atom => number.testBit (atoms.idxOf atom)) bits _ _
      (List.getElem_mem below), distinct.idxOf_getElem index below]

/-- Worlds that agree on all atoms have the same number. -/
theorem eq_of_assigned_eq {atoms : List Atom} (distinct : atoms.Nodup)
    {number other : Nat} (inRange : number < count atoms)
    (otherInRange : other < count atoms)
    (agree : ∀ atom ∈ atoms,
      ((numbered atoms (number : Nat)).assigned atom).isOne =
        ((numbered atoms (other : Nat)).assigned atom).isOne) :
    number = other := by
  apply Nat.eq_of_testBit_eq
  intro index
  by_cases below : index < atoms.length
  · have same := agree atoms[index] (List.getElem_mem below)
    rw [assigned_numbered distinct number below,
      assigned_numbered distinct other below, isOne_bitDegree,
      isOne_bitDegree] at same
    exact same
  · have beyond : count atoms ≤ 2 ^ index :=
      Nat.pow_le_pow_right (by decide) (Nat.le_of_not_lt below)
    rw [Nat.testBit_lt_two_pow (Nat.lt_of_lt_of_le inRange beyond),
      Nat.testBit_lt_two_pow (Nat.lt_of_lt_of_le otherInRange beyond)]

/-- The atoms of a smaller vocabulary hold as in one of its worlds. -/
theorem exists_numbered_truth_eq {atoms vocabulary : List Atom}
    (included : atoms ⊆ vocabulary) {world : Interpretation}
    (inAll : world ∈ all vocabulary) :
    ∃ number, number < count atoms ∧
      ∀ formula : Formula, formula.mentions ⊆ atoms →
        formula.truth world =
          formula.truth (numbered atoms (number : Nat)) := by
  obtain ⟨twin, twinInAll, agree⟩ := exists_agreeing atoms inAll
  obtain ⟨number, inRange, isNumbered⟩ := mem_all.mp twinInAll
  refine ⟨number, inRange, ?_⟩
  intro formula covered
  rw [isNumbered]
  apply Formula.truth_congr
  intro atom mentioned
  exact (agree atom (included (covered mentioned)) (covered mentioned)).symm

end World

end Possibilistic
