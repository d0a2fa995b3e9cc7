import Mathlib.Data.Nat.Init
import Possibilistic.Proofs.Atom.Vocabulary
import Possibilistic.Proofs.Degree.Complement
import Possibilistic.World

/-!
# Worlds as choices of truth values

The worlds of a vocabulary are the choices of a truth value for every atom.
The truth of a formula depends on the atoms that it mentions and nothing else,
so a world of one vocabulary can be exchanged for a world of another that
agrees with it on the common atoms.
-/

namespace Possibilistic

theorem ArrivalMap.get?_foldl_insert_map {κ ν : Type} [DecidableEq κ]
    {choice : κ → ν} {keys : List κ} {key : κ} {map : ArrivalMap κ ν}
    (chosen : key ∈ keys ∨ map.get? key = some (choice key)) :
    ((keys.map fun other => (other, choice other)).foldl
        (fun map entry => map.insert entry.1 entry.2) map).get? key =
      some (choice key) := by
  induction keys generalizing map with
  | nil => exact chosen.resolve_left (List.not_mem_nil)
  | cons head tail ih =>
      rw [List.map_cons, List.foldl_cons]
      apply ih
      rw [get?_insert]
      rcases chosen with member | kept
      · rcases List.mem_cons.mp member with rfl | inTail
        · exact .inr (if_pos rfl)
        · exact .inl inTail
      · right
        split
        · rename_i equality
          rw [equality]
        · exact kept

namespace Interpretation

theorem assigned_assign (interpretation : Interpretation)
    (atom other : Atom) (degree : Degree) :
    (interpretation.assign atom degree).assigned other =
      if other = atom then degree else interpretation.assigned other := by
  simp only [assigned, assign, ArrivalMap.get?_insert]
  split <;> rfl

/-- Listed assignments assign what they list. -/
theorem assigned_ofList_zip_map {choice : Atom → Degree}
    {atoms : List Atom} {atom : Atom} (member : atom ∈ atoms) :
    (ofList (atoms.zip (atoms.map choice))).assigned atom = choice atom := by
  have listed : atoms.zip (atoms.map choice) =
      atoms.map fun other => (other, choice other) :=
    List.map_prod_left_eq_zip.symm
  rw [listed, assigned, ofList, ArrivalMap.ofList,
    ArrivalMap.get?_foldl_insert_map (.inl member), Option.getD_some]

end Interpretation

/-- The truth of a formula depends on the atoms that it mentions. -/
theorem Formula.truth_congr {left right : Interpretation} {formula : Formula}
    (agree : ∀ atom ∈ formula.mentions,
      left.assigned atom = right.assigned atom) :
    formula.truth left = formula.truth right := by
  induction formula with
  | atom symbol =>
      simp only [truth, Interpretation.truth]
      cases known : symbol.constant? with
      | some degree => rfl
      | none =>
          have mentioned : symbol ∈ (Formula.atom symbol).mentions := by
            simp [mentions, Atom.isConstant, known]
          exact agree symbol mentioned
  | neg operand ih =>
      simp only [truth]
      rw [ih agree]
  | binary connective first second firstIh secondIh =>
      simp only [truth]
      rw [firstIh (fun atom member => agree atom
        (List.mem_append_left _ member))]
      rw [secondIh (fun atom member => agree atom
        (List.mem_append_right _ member))]

namespace World

theorem bit_natCast (number position : Nat) :
    bit number position = number.testBit position := by
  rw [bit, Int.shiftRight_eq_div_pow, Nat.testBit_eq_decide_div_mod_eq,
    Bool.eq_iff_iff, beq_iff_eq, decide_eq_true_iff]
  norm_cast

theorem assigned_assignBits_of_not_mem {number : Int} {atom : Atom}
    {atoms : List Atom} (absent : atom ∉ atoms) (position : Nat)
    (start : Interpretation) :
    (assignBits number position atoms start).assigned atom =
      start.assigned atom := by
  induction atoms generalizing position start with
  | nil => rfl
  | cons head tail ih =>
      obtain ⟨different, notInTail⟩ := not_or.mp (mt List.mem_cons.mpr absent)
      rw [assignBits, ih notInTail, Interpretation.assigned_assign,
        if_neg different]

theorem assigned_assignBits {number : Int} {position : Nat}
    {atoms : List Atom} {choice : Atom → Bool}
    (bits : ∀ index (below : index < atoms.length),
      bit number (position + index) = choice atoms[index])
    (start : Interpretation) {atom : Atom} (member : atom ∈ atoms) :
    (assignBits number position atoms start).assigned atom =
      bitDegree (choice atom) := by
  induction atoms generalizing position start with
  | nil => cases member
  | cons head tail ih =>
      rw [assignBits]
      by_cases inTail : atom ∈ tail
      · apply ih _ _ inTail
        intro index below
        have shifted := bits (index + 1) (Nat.succ_lt_succ below)
        rw [← Nat.add_assoc, Nat.add_right_comm] at shifted
        exact shifted
      · have isHead : atom = head := by
          simpa [inTail] using member
        have first := bits 0 (Nat.zero_lt_succ _)
        rw [assigned_assignBits_of_not_mem inTail,
          Interpretation.assigned_assign, if_pos isHead, isHead]
        exact congrArg bitDegree first

theorem exists_bitDegree_assignBits (number : Int) (position : Nat)
    {atoms : List Atom} (start : Interpretation) {atom : Atom}
    (member : atom ∈ atoms) :
    ∃ chosen, (assignBits number position atoms start).assigned atom =
      bitDegree chosen := by
  induction atoms generalizing position start with
  | nil => cases member
  | cons head tail ih =>
      rw [assignBits]
      by_cases inTail : atom ∈ tail
      · exact ih _ _ inTail
      · have isHead : atom = head := by
          simpa [inTail] using member
        refine ⟨bit number position, ?_⟩
        rw [assigned_assignBits_of_not_mem inTail,
          Interpretation.assigned_assign, if_pos isHead]

theorem mem_all {atoms : List Atom} {world : Interpretation} :
    world ∈ all atoms ↔
      ∃ number : Nat, number < count atoms ∧ numbered atoms number = world := by
  simp [all, firstWorlds]

/-- A world makes every atom of its vocabulary true or false. -/
theorem exists_bitDegree_of_mem_all {atoms : List Atom}
    {world : Interpretation} (inAll : world ∈ all atoms) {atom : Atom}
    (member : atom ∈ atoms) :
    ∃ chosen, world.assigned atom = bitDegree chosen := by
  obtain ⟨number, _, equality⟩ := mem_all.mp inAll
  rw [← equality]
  exact exists_bitDegree_assignBits number 0 _ member

/-- Every choice of truth values for a vocabulary is one of its worlds. -/
theorem exists_mem_all (atoms : List Atom) (choice : Atom → Bool) :
    ∃ world ∈ all atoms, ∀ atom ∈ atoms,
      world.assigned atom = bitDegree (choice atom) := by
  let number : Nat := Nat.ofBits fun index : Fin atoms.length =>
    choice atoms[index]
  refine ⟨numbered atoms number, ?_, ?_⟩
  · exact mem_all.mpr ⟨number, Nat.ofBits_lt_two_pow _, rfl⟩
  · intro atom member
    apply assigned_assignBits _ _ member
    intro index below
    rw [Nat.zero_add, bit_natCast]
    exact Nat.testBit_ofBits_lt _ index below

theorem all_ne_nil (atoms : List Atom) : all atoms ≠ [] := by
  obtain ⟨world, inAll, _⟩ := exists_mem_all atoms fun _ => true
  exact List.ne_nil_of_mem inAll

theorem isOne_bitDegree (chosen : Bool) :
    (bitDegree chosen).isOne = chosen := by
  cases chosen with
  | true => exact Degree.isOne_iff.mpr rfl
  | false =>
      have positive := Binary64.unit_pos
      apply Bool.eq_false_iff.mpr
      intro full
      have := Degree.isOne_iff.mp full
      simp [bitDegree] at this
      omega

/-- Worlds of two vocabularies can agree on the common atoms. -/
theorem exists_agreeing {source : List Atom} (target : List Atom)
    {world : Interpretation} (inAll : world ∈ all source) :
    ∃ other ∈ all target, ∀ atom ∈ source, atom ∈ target →
      other.assigned atom = world.assigned atom := by
  obtain ⟨other, otherInAll, chosen⟩ :=
    exists_mem_all target fun atom => (world.assigned atom).isOne
  refine ⟨other, otherInAll, ?_⟩
  intro atom inSource inTarget
  obtain ⟨bit, equality⟩ := exists_bitDegree_of_mem_all inAll inSource
  rw [chosen atom inTarget, equality, isOne_bitDegree]

end World

end Possibilistic
