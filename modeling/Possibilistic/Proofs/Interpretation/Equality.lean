import Possibilistic.Proofs.Atom.Vocabulary
import Possibilistic.Proofs.Formula.Classical
import Possibilistic.Proofs.FuzzySet.Members

/-!
# Equal interpretations

An interpretation is known by its atoms and by the degrees that it assigns to
them.  The executable comparison says just that, whatever the order in which the
atoms were assigned, and crispness is a matter of these degrees.
-/

namespace Possibilistic

namespace Interpretation

theorem keys_perm_atoms (interpretation : Interpretation) :
    interpretation.degrees.keys.Perm interpretation.atoms := by
  apply (List.perm_ext_iff_of_nodup interpretation.degrees.nodup
    (Atom.nodup_of_ascending (Atom.ascending_vocabulary _))).mpr
  intro atom
  exact Atom.mem_vocabulary.symm

theorem assigned_of_mem_entries {interpretation : Interpretation} {atom : Atom}
    {degree : Degree}
    (member : (atom, degree) ∈ interpretation.degrees.entries) :
    interpretation.assigned atom = degree := by
  have found : interpretation.degrees.get? atom = some degree :=
    (ArrivalMap.lookUp?_eq_some_iff interpretation.degrees.nodup).mpr member
  rw [assigned, found, Option.getD_some]

/-- The entries are the atoms with their degrees. -/
theorem mem_entries_iff {interpretation : Interpretation} {atom : Atom}
    {degree : Degree} :
    (atom, degree) ∈ interpretation.degrees.entries ↔
      atom ∈ interpretation.atoms ∧ interpretation.assigned atom = degree := by
  constructor
  · intro member
    exact ⟨Atom.mem_vocabulary.mpr (List.mem_map_of_mem member),
      assigned_of_mem_entries member⟩
  · intro ⟨inAtoms, equality⟩
    obtain ⟨⟨other, known⟩, member, same⟩ :=
      List.mem_map.mp (Atom.mem_vocabulary.mp inAtoms)
    have same : other = atom := same
    subst same
    rw [← equality, assigned_of_mem_entries member]
    exact member

theorem get?_of_mem_atoms {interpretation : Interpretation} {atom : Atom}
    (inAtoms : atom ∈ interpretation.atoms) :
    interpretation.degrees.get? atom =
      some (interpretation.assigned atom) :=
  (ArrivalMap.lookUp?_eq_some_iff interpretation.degrees.nodup).mpr
    (mem_entries_iff.mpr ⟨inAtoms, rfl⟩)

theorem get?_of_not_mem_atoms {interpretation : Interpretation} {atom : Atom}
    (absent : atom ∉ interpretation.atoms) :
    interpretation.degrees.get? atom = none := by
  cases found : interpretation.degrees.get? atom with
  | none => rfl
  | some degree =>
      have member :=
        (ArrivalMap.lookUp?_eq_some_iff interpretation.degrees.nodup).mp found
      exact absurd (mem_entries_iff.mp member).1 absent

/-- Interpretations are equal when they assign equal degrees to the same
atoms. -/
theorem beq_iff {left right : Interpretation} :
    (left == right) = true ↔
      left.atoms = right.atoms ∧
        ∀ atom ∈ left.atoms,
          (left.assigned atom).units = (right.assigned atom).units := by
  have sizes : ∀ interpretation : Interpretation,
      interpretation.degrees.size = interpretation.atoms.length := by
    intro interpretation
    rw [← interpretation.keys_perm_atoms.length_eq, ArrivalMap.keys,
      List.length_map, ArrivalMap.size]
  change left.degrees.sameEntries right.degrees = true ↔ _
  rw [ArrivalMap.sameEntries, Bool.and_eq_true, beq_iff_eq, List.all_eq_true,
    sizes, sizes]
  constructor
  · rintro ⟨sameSize, listed⟩
    have found : ∀ atom ∈ left.atoms, atom ∈ right.atoms ∧
        (left.assigned atom).units = (right.assigned atom).units := by
      intro atom inLeft
      have entry := listed _ (mem_entries_iff.mpr ⟨inLeft, rfl⟩)
      by_cases inRight : atom ∈ right.atoms
      · simp only [get?_of_mem_atoms inRight, Degree.beq_iff] at entry
        exact ⟨inRight, entry⟩
      · simp [get?_of_not_mem_atoms inRight] at entry
    have distinct : left.atoms.Nodup :=
      Atom.nodup_of_ascending (Atom.ascending_vocabulary _)
    have included : left.atoms ⊆ right.atoms :=
      fun atom inLeft => (found atom inLeft).1
    have perm : left.atoms.Perm right.atoms :=
      (List.subperm_of_subset distinct included).perm_of_length_le
        (Nat.le_of_eq sameSize.symm)
    refine ⟨?_, fun atom inLeft => (found atom inLeft).2⟩
    exact Atom.eq_of_ascending (Atom.ascending_vocabulary _)
      (Atom.ascending_vocabulary _) fun _ => perm.mem_iff
  · rintro ⟨sameAtoms, sameDegrees⟩
    refine ⟨by rw [sameAtoms], ?_⟩
    rintro ⟨atom, degree⟩ member
    obtain ⟨inLeft, isAssigned⟩ := mem_entries_iff.mp member
    have inRight : atom ∈ right.atoms := sameAtoms ▸ inLeft
    simp only [get?_of_mem_atoms inRight, Degree.beq_iff, ← isAssigned]
    exact sameDegrees atom inLeft

theorem isCrisp_iff {interpretation : Interpretation} :
    interpretation.isCrisp = true ↔
      ∀ atom ∈ interpretation.atoms,
        (interpretation.assigned atom).IsCrisp := by
  have crisp_iff : ∀ degree : Degree,
      (degree.isOne || degree.isZero) = true ↔ degree.IsCrisp := by
    intro degree
    rw [Bool.or_eq_true]
    exact or_comm
  simp only [isCrisp, ArrivalMap.values, List.all_map, List.all_eq_true,
    Function.comp_apply, crisp_iff]
  constructor
  · intro crisp atom inAtoms
    exact crisp _ (mem_entries_iff.mpr ⟨inAtoms, rfl⟩)
  · rintro crisp ⟨atom, degree⟩ member
    obtain ⟨inAtoms, isAssigned⟩ := mem_entries_iff.mp member
    exact isAssigned ▸ crisp atom inAtoms

end Interpretation

end Possibilistic
