import Mathlib.Data.Nat.Bitwise
import Possibilistic.Proofs.Distribution.Measures
import Possibilistic.Proofs.Formula.Joining
import Possibilistic.Proofs.World.Enumeration

/-!
# Numbers, interpretations and minterms

A world is given by its number, by its interpretation or by its minterm.  The
number of an interpretation weighs atoms by powers of two, so its bits are the
atoms that hold, and numbering is inverse to it.  The minterm is true in one world
only, so the measures read the degree of this world back from it.
-/

namespace Possibilistic

-- Powers of natural numbers are those of the core library everywhere.
attribute [local instance (2000)] instPowNat

namespace Distribution

theorem weigh_scaled (interpretation : Interpretation) (factor weight : Nat)
    (atoms : List Atom) :
    weigh interpretation (factor * weight) atoms =
      factor * weigh interpretation weight atoms := by
  induction atoms generalizing weight with
  | nil => rfl
  | cons atom rest ih =>
      rw [weigh, weigh, Nat.mul_left_comm, ih, Nat.mul_add, mul_ite,
        Nat.mul_zero]

/-- The first atom is the lowest bit. -/
theorem weigh_cons (interpretation : Interpretation) (atom : Atom)
    (rest : List Atom) :
    weigh interpretation 1 (atom :: rest) =
      Nat.bit (interpretation.truth atom).isOne
        (weigh interpretation 1 rest) := by
  rw [weigh, weigh_scaled]
  cases (interpretation.truth atom).isOne with
  | true => exact Nat.add_comm _ _
  | false => exact Nat.zero_add _

theorem testBit_weigh (interpretation : Interpretation) {atoms : List Atom}
    {index : Nat} (below : index < atoms.length) :
    (weigh interpretation 1 atoms).testBit index =
      (interpretation.truth atoms[index]).isOne := by
  induction atoms generalizing index with
  | nil => cases below
  | cons atom rest ih =>
      rw [weigh_cons]
      cases index with
      | zero => exact Nat.testBit_bit_zero _ _
      | succ index =>
          rw [Nat.testBit_bit_succ, ih (Nat.lt_of_succ_lt_succ below)]
          rfl

theorem weigh_lt (interpretation : Interpretation) (atoms : List Atom) :
    weigh interpretation 1 atoms < World.count atoms := by
  induction atoms with
  | nil => exact Nat.zero_lt_one
  | cons atom rest ih =>
      have doubled : World.count (atom :: rest) = 2 * World.count rest :=
        Nat.pow_succ'
      rw [weigh_cons, doubled]
      cases (interpretation.truth atom).isOne with
      | true =>
          change 2 * weigh interpretation 1 rest + 1 < _
          omega
      | false =>
          change 2 * weigh interpretation 1 rest < _
          omega

section

variable {distribution : Distribution}
  (isVocabulary : Atom.IsVocabulary distribution.atoms)

include isVocabulary

theorem truth_eq_assigned {atom : Atom} (member : atom ∈ distribution.atoms)
    (interpretation : Interpretation) :
    interpretation.truth atom = interpretation.assigned atom := by
  simp only [Interpretation.truth, isVocabulary.nonconstant atom member]

/-- A world is found under its number. -/
theorem index_numbered {number : Nat}
    (inRange : number < World.count distribution.atoms) :
    distribution.index
      (World.numbered distribution.atoms (number : Nat)) = number := by
  apply Nat.eq_of_testBit_eq
  intro index
  by_cases below : index < distribution.atoms.length
  · rw [Distribution.index, testBit_weigh _ below,
      truth_eq_assigned isVocabulary (List.getElem_mem below),
      World.assigned_numbered
        (Atom.nodup_of_ascending isVocabulary.ascending) number below,
      World.isOne_bitDegree]
  · have beyond : World.count distribution.atoms ≤ 2 ^ index :=
      Nat.pow_le_pow_right (by decide) (Nat.le_of_not_lt below)
    have found := weigh_lt
      (World.numbered distribution.atoms (number : Nat)) distribution.atoms
    rw [Distribution.index,
      Nat.testBit_lt_two_pow (Nat.lt_of_lt_of_le found beyond),
      Nat.testBit_lt_two_pow (Nat.lt_of_lt_of_le inRange beyond)]

/-- Under the number of a crisp interpretation stands an equal world. -/
theorem numbered_index_beq {interpretation : Interpretation}
    (crisp : interpretation.isCrisp = true)
    (sameAtoms : interpretation.atoms = distribution.atoms) :
    (World.numbered distribution.atoms
      (distribution.index interpretation : Nat) == interpretation) =
        true := by
  have inAll : World.numbered distribution.atoms
      (distribution.index interpretation : Nat) ∈
        World.all distribution.atoms :=
    World.mem_all.mpr ⟨_, weigh_lt interpretation distribution.atoms, rfl⟩
  apply (World.beq_iff_of_mem_all isVocabulary.ascending inAll crisp
    sameAtoms).mpr
  intro atom member
  obtain ⟨index, below, isAtom⟩ := List.getElem_of_mem member
  rw [← isAtom, World.assigned_numbered
      (Atom.nodup_of_ascending isVocabulary.ascending) _ below,
    World.isOne_bitDegree, Distribution.index, testBit_weigh _ below,
    truth_eq_assigned isVocabulary (List.getElem_mem below)]

end

end Distribution

namespace Interpretation

/-- The literal of an atom holds where the atom is decided in the same way. -/
theorem truth_literal_isOne_iff {world : Interpretation} {atom : Atom}
    (decided : (world.truth atom).IsCrisp) (full : Bool) :
    ((if full then Formula.atom atom else .neg (.atom atom)).truth
        world).isOne = true ↔
      (world.truth atom).isOne = full := by
  cases full with
  | true => exact Iff.rfl
  | false =>
      have opposite : (world.truth atom).complement.isOne = true ↔
          (world.truth atom).isZero = true := decided.complement_isOne_iff
      change (world.truth atom).complement.isOne = true ↔ _
      rw [opposite]
      rcases decided with vanishing | isFull
      · have notFull : (world.truth atom).isOne = false := by
          apply Bool.eq_false_iff.mpr
          intro isFull
          rw [Degree.isZero_eq_false_of_isOne isFull] at vanishing
          cases vanishing
        exact iff_of_true vanishing notFull
      · rw [isFull, Degree.isZero_eq_false_of_isOne isFull]
        decide

theorem exists_minterm? {interpretation : Interpretation}
    (nonempty : interpretation.atoms ≠ []) :
    ∃ minterm, interpretation.minterm? = some minterm := by
  unfold minterm? items
  split
  · rename_i nothing
    exact absurd (List.map_eq_nil_iff.mp nothing) nonempty
  · exact ⟨_, rfl⟩

/-- A world that decides the atoms makes a minterm true exactly when it agrees
with the interpretation on all of them. -/
theorem truth_minterm_isOne_iff {interpretation world : Interpretation}
    {minterm : Formula} (isMinterm : interpretation.minterm? = some minterm)
    (decided : ∀ atom ∈ interpretation.atoms, (world.truth atom).IsCrisp) :
    (minterm.truth world).isOne = true ↔
      ∀ atom ∈ interpretation.atoms,
        (world.truth atom).isOne = (interpretation.assigned atom).isOne := by
  unfold minterm? at isMinterm
  split at isMinterm
  · cases isMinterm
  · rw [← Option.some.inj isMinterm, Formula.truth_conjAll_isOne_iff,
      List.forall_mem_map, items, List.forall_mem_map]
    apply forall₂_congr
    intro atom member
    exact truth_literal_isOne_iff (decided atom member) _

end Interpretation

namespace Distribution

section

variable {distribution : Distribution}
  (isVocabulary : Atom.IsVocabulary distribution.atoms) {number : Nat}
  (inRange : number < World.count distribution.atoms) {minterm : Formula}
  (isMinterm : (World.numbered distribution.atoms (number : Nat)).minterm? =
    some minterm)

include isVocabulary inRange isMinterm

/-- A minterm is true in its own world and in no other. -/
theorem minterm_holds_iff {other : Nat}
    (otherInRange : other < World.count distribution.atoms) :
    (minterm.truth
        (World.numbered distribution.atoms (other : Nat))).isOne = true ↔
      other = number := by
  have ascending := isVocabulary.ascending
  have inAll : World.numbered distribution.atoms (number : Nat) ∈
      World.all distribution.atoms := World.mem_all.mpr ⟨_, inRange, rfl⟩
  have otherInAll : World.numbered distribution.atoms (other : Nat) ∈
      World.all distribution.atoms := World.mem_all.mpr ⟨_, otherInRange, rfl⟩
  have worldAtoms := World.atoms_of_mem_all ascending inAll
  have decided : ∀ atom ∈
      (World.numbered distribution.atoms (number : Nat)).atoms,
      ((World.numbered distribution.atoms (other : Nat)).truth
        atom).IsCrisp := by
    intro atom member
    rw [worldAtoms] at member
    obtain ⟨chosen, equality⟩ :=
      World.exists_bitDegree_of_mem_all otherInAll member
    rw [truth_eq_assigned isVocabulary member, equality]
    exact World.isCrisp_bitDegree chosen
  rw [Interpretation.truth_minterm_isOne_iff isMinterm decided, worldAtoms]
  constructor
  · intro agree
    apply World.eq_of_assigned_eq (Atom.nodup_of_ascending ascending)
      otherInRange inRange
    intro atom member
    rw [← truth_eq_assigned isVocabulary member]
    exact agree atom member
  · rintro rfl atom member
    rw [truth_eq_assigned isVocabulary member]

theorem possibility_minterm :
    (distribution.possibility minterm).units =
      (distribution.degreeAt number).units := by
  apply Degree.units_eq_of_le_iff
  intro level positive
  rw [possibility, le_greatest_iff positive]
  constructor
  · rintro ⟨other, otherInRange, holds, reached⟩
    rw [minterm_holds_iff isVocabulary inRange isMinterm otherInRange] at holds
    exact holds ▸ reached
  · intro reached
    exact ⟨number, inRange,
      (minterm_holds_iff isVocabulary inRange isMinterm inRange).mpr rfl,
      reached⟩

theorem guaranteedPossibility_minterm :
    (distribution.guaranteedPossibility minterm).units =
      (distribution.degreeAt number).units := by
  apply Degree.units_eq_of_le_iff
  intro level _
  rw [guaranteedPossibility, le_least_iff]
  constructor
  · intro every
    exact every number inRange
      ((minterm_holds_iff isVocabulary inRange isMinterm inRange).mpr rfl)
  · intro reached other otherInRange holds
    rw [minterm_holds_iff isVocabulary inRange isMinterm otherInRange] at holds
    exact holds ▸ reached

end

/-- The worlds of some atoms that are no constants are their crisp
interpretations, each once.  Numbering them and looking a number up are inverse
to each other, and the measures of a world's minterm are the degree that a
distribution stores for the world. -/
theorem worlds_are_numbered_once {atoms : List Atom}
    (nonconstant : ∀ atom ∈ atoms, atom.constant? = none)
    {distribution : Distribution}
    (ordered : distribution.atoms = Atom.vocabulary atoms) :
    (∀ (limit : Int) (most : Nat), 2 ^ atoms.toFinset.card ≤ most →
      (World.taken limit (Atom.vocabulary atoms) most).value.length =
          2 ^ atoms.toFinset.card ∧
        World.Enumerates atoms
          (World.taken limit (Atom.vocabulary atoms) most).value) ∧
    (∀ number : Nat, number < 2 ^ atoms.toFinset.card →
      distribution.index (World.numbered (Atom.vocabulary atoms) number) =
        number) ∧
    (∀ interpretation : Interpretation, interpretation.isCrisp = true →
      interpretation.atoms = Atom.vocabulary atoms →
        (World.numbered (Atom.vocabulary atoms)
          (distribution.index interpretation) == interpretation) = true) ∧
    (atoms ≠ [] → ∀ number : Nat, number < 2 ^ atoms.toFinset.card →
      ∃ stored : number < distribution.degrees.length, ∃ minterm,
        (World.numbered (Atom.vocabulary atoms) number).minterm? =
            some minterm ∧
          (distribution.possibility minterm ==
            distribution.degrees[number]) = true ∧
          (distribution.guaranteedPossibility minterm ==
            distribution.degrees[number]) = true) := by
  have isVocabulary : Atom.IsVocabulary distribution.atoms := by
    rw [ordered]
    exact ⟨Atom.ascending_vocabulary atoms, fun atom member =>
      nonconstant atom (Atom.mem_vocabulary.mp member)⟩
  rw [← World.count_vocabulary, ← ordered]
  refine ⟨?_, ?_, ?_, ?_⟩
  · intro limit most enough
    rw [World.value_taken enough limit, World.length_all, ordered]
    exact ⟨rfl, World.enumerates_all atoms⟩
  · exact fun number inRange => index_numbered isVocabulary inRange
  · exact fun interpretation crisp sameAtoms =>
      numbered_index_beq isVocabulary crisp sameAtoms
  · intro nonempty number inRange
    have stored : number < distribution.degrees.length := by
      rw [distribution.length_eq]
      exact inRange
    have inAll : World.numbered distribution.atoms (number : Nat) ∈
        World.all distribution.atoms := World.mem_all.mpr ⟨_, inRange, rfl⟩
    have someAtoms :
        (World.numbered distribution.atoms (number : Nat)).atoms ≠ [] := by
      rw [World.atoms_of_mem_all isVocabulary.ascending inAll, ordered]
      exact Atom.vocabulary_ne_nil nonempty
    obtain ⟨minterm, isMinterm⟩ := Interpretation.exists_minterm? someAtoms
    refine ⟨stored, minterm, isMinterm, ?_, ?_⟩
    · rw [Degree.beq_iff, ← degreeAt_eq_getElem stored]
      exact possibility_minterm isVocabulary inRange isMinterm
    · rw [Degree.beq_iff, ← degreeAt_eq_getElem stored]
      exact guaranteedPossibility_minterm isVocabulary inRange isMinterm

/-- Wind and rain are listed out of order, and wind twice.  Wind without rain,
assigned with a negative zero, is the world with the number two, which is half
possible, and so is its minterm. -/
theorem worlds_are_numbered_once_wind :
    let atoms : List Atom := [⟨"wind"⟩, ⟨"rain"⟩, ⟨"wind"⟩]
    let distribution : Distribution :=
      { atoms := [⟨"rain"⟩, ⟨"wind"⟩]
        degrees := [Degree.one, Degree.zero, Degree.half, Degree.one]
        length_eq := rfl }
    let windy := Interpretation.ofList
      [(⟨"wind"⟩, Degree.one), (⟨"rain"⟩, Degree.signedZero true)]
    (∀ atom ∈ atoms, atom.constant? = none) ∧
      distribution.atoms = Atom.vocabulary atoms ∧
      2 ^ atoms.toFinset.card = 4 ∧
      (World.taken 20 (Atom.vocabulary atoms) 4).value.length = 4 ∧
      windy.isCrisp = true ∧ windy.atoms = Atom.vocabulary atoms ∧
      distribution.index windy = 2 ∧
      distribution.index (World.numbered (Atom.vocabulary atoms) 2) = 2 ∧
      (World.numbered (Atom.vocabulary atoms)
        (distribution.index windy) == windy) = true ∧
      ∃ minterm,
        (World.numbered (Atom.vocabulary atoms) 2).minterm? = some minterm ∧
          minterm = (Formula.atom ⟨"rain"⟩).neg.conj (.atom ⟨"wind"⟩) ∧
          (distribution.possibility minterm == Degree.half) = true ∧
          (distribution.guaranteedPossibility minterm ==
            Degree.half) = true := by
  intro atoms distribution windy
  have nonconstant : ∀ atom ∈ atoms, atom.constant? = none := by
    decide +kernel
  have ordered : distribution.atoms = Atom.vocabulary atoms := by decide +kernel
  have four : 2 ^ atoms.toFinset.card = 4 := by decide +kernel
  have crisp : windy.isCrisp = true := by decide +kernel
  have sameAtoms : windy.atoms = Atom.vocabulary atoms := by decide +kernel
  have inRange : 2 < 2 ^ atoms.toFinset.card := by omega
  obtain ⟨enumerated, looked, numbered, measured⟩ :=
    worlds_are_numbered_once nonconstant ordered
  obtain ⟨stored, minterm, isMinterm, possible, guaranteed⟩ :=
    measured (by decide) 2 inRange
  have written : (World.numbered (Atom.vocabulary atoms) 2).minterm? =
      some ((Formula.atom ⟨"rain"⟩).neg.conj (.atom ⟨"wind"⟩)) := by
    decide +kernel
  refine ⟨nonconstant, ordered, four, ?_, crisp, sameAtoms, by decide +kernel,
    looked 2 inRange, numbered windy crisp sameAtoms, minterm, isMinterm, ?_,
    possible, guaranteed⟩
  · rw [(enumerated 20 4 (Nat.le_of_eq four)).1, four]
  · exact Option.some.inj (isMinterm.symm.trans written)

end Distribution

end Possibilistic
