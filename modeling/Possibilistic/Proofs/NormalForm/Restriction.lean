import Mathlib.Tactic.ByContra
import Possibilistic.Proofs.Atom.Vocabulary
import Possibilistic.Proofs.NormalForm.Conjunction

/-!
# Conjunctions over another vocabulary

What a conjunction says of the atoms can be said over any vocabulary that has
the atoms of which it says something.  It is written in the same way there, and
conjunctions that differ stay different.
-/

namespace Possibilistic

namespace Conjunction

/-- The same signs over another vocabulary. -/
def restrictTo (atoms : List Atom) (conjunction : Conjunction) : Conjunction :=
  ⟨atoms.map fun atom => (atom, conjunction.sign atom), conjunction.bound⟩

/-- The vocabulary has every atom of which the conjunction says something, and
no constant. -/
def NamesWithin (atoms : List Atom) (conjunction : Conjunction) : Prop :=
  ∀ atom, conjunction.sign atom ≠ .absent →
    atom ∈ atoms ∧ atom.constant? = none

section

variable {atoms : List Atom} {conjunction : Conjunction}

theorem sign_of_mem {literal : Atom × Sign} (distinct : conjunction.atoms.Nodup)
    (member : literal ∈ conjunction.literals) :
    conjunction.sign literal.1 = literal.2 := by
  rw [sign]
  split
  · rename_i found search
    have same : found.1 = literal.1 := by simpa using List.find?_some search
    rw [List.inj_on_of_nodup_map distinct (List.mem_of_find?_eq_some search)
      member same]
  · rename_i search
    have missed := List.find?_eq_none.mp search literal member
    exact absurd (decide_eq_true rfl) missed

theorem mem_atoms_of_sign {atom : Atom}
    (named : conjunction.sign atom ≠ .absent) : atom ∈ conjunction.atoms := by
  rw [sign] at named
  split at named
  · rename_i found search
    have same : found.1 = atom := by simpa using List.find?_some search
    rw [← same]
    exact List.mem_map_of_mem (List.mem_of_find?_eq_some search)
  · exact absurd rfl named

/-- A conjunction is over its own vocabulary. -/
theorem restrictTo_atoms (distinct : conjunction.atoms.Nodup) :
    conjunction.restrictTo conjunction.atoms = conjunction := by
  have literals : conjunction.atoms.map
      (fun atom => (atom, conjunction.sign atom)) = conjunction.literals := by
    rw [Conjunction.atoms, List.map_map]
    calc
      _ = conjunction.literals.map id :=
        List.map_congr_left fun literal member =>
          congrArg (literal.1, ·) (sign_of_mem distinct member)
      _ = conjunction.literals := List.map_id _
  rw [restrictTo, literals]

theorem mem_literals_of_sign {atom : Atom} (distinct : conjunction.atoms.Nodup)
    (named : conjunction.sign atom ≠ .absent) :
    (atom, conjunction.sign atom) ∈ conjunction.literals := by
  have listed : (atom, conjunction.sign atom) ∈
      (conjunction.restrictTo conjunction.atoms).literals :=
    List.mem_map_of_mem (mem_atoms_of_sign named)
  rwa [restrictTo_atoms distinct] at listed

/-- What is said of an atom that is no constant is written as a literal with
this atom. -/
theorem exists_literalFormula? {atom : Atom} {sign : Sign}
    (named : sign ≠ .absent) (nonconstant : atom.constant? = none) :
    ∃ literal, literalFormula? (atom, sign) = some literal ∧
      atom ∈ literal.mentions := by
  have mentioned : atom ∈ (Formula.atom atom).mentions := by
    simp [Formula.mentions, Atom.isConstant, nonconstant]
  cases sign with
  | denied => exact ⟨_, rfl, mentioned⟩
  | absent => exact absurd rfl named
  | asserted => exact ⟨_, rfl, mentioned⟩

theorem filterMap_literals_restrictTo (vocabulary : List Atom) :
    (conjunction.restrictTo vocabulary).literals.filterMap literalFormula? =
      (vocabulary.filter fun atom =>
        conjunction.sign atom ≠ .absent).filterMap fun atom =>
          literalFormula? (atom, conjunction.sign atom) := by
  rw [restrictTo, List.filterMap_map, List.filterMap_filter]
  apply List.filterMap_congr
  intro atom _
  cases named : conjunction.sign atom <;> simp [literalFormula?, named]

/-- Vocabularies with the same named atoms serve equally well to write the
conjunction. -/
theorem formula_restrictTo {other : List Atom}
    (ascending : Atom.Ascending atoms)
    (otherAscending : Atom.Ascending other)
    (within : conjunction.NamesWithin atoms)
    (otherWithin : conjunction.NamesWithin other) :
    (conjunction.restrictTo atoms).formula =
      (conjunction.restrictTo other).formula := by
  have sameNamed : (atoms.filter fun atom =>
      conjunction.sign atom ≠ .absent) =
        other.filter fun atom => conjunction.sign atom ≠ .absent := by
    apply Atom.eq_of_ascending (List.Pairwise.filter _ ascending)
      (List.Pairwise.filter _ otherAscending)
    intro atom
    simp only [List.mem_filter, decide_eq_true_eq]
    exact and_congr_left fun named =>
      iff_of_true (within atom named).1 (otherWithin atom named).1
  rw [formula, formula, filterMap_literals_restrictTo,
    filterMap_literals_restrictTo, sameNamed]
  rfl

/-- Conjunctions over one vocabulary that become equal over another one were
equal. -/
theorem eq_of_restrictTo_beq {other : Conjunction}
    (distinct : conjunction.atoms.Nodup)
    (sameAtoms : conjunction.atoms = other.atoms)
    (within : conjunction.NamesWithin atoms)
    (otherWithin : other.NamesWithin atoms)
    (same : (conjunction.restrictTo atoms == other.restrictTo atoms) = true) :
    (conjunction == other) = true := by
  obtain ⟨sameLiterals, sameBound⟩ := Bool.and_eq_true_iff.mp same
  have sameSigns : ∀ atom, conjunction.sign atom = other.sign atom := by
    intro atom
    by_cases covered : atom ∈ atoms
    · have pairs :=
        List.map_inj_left.mp (beq_iff_eq.mp sameLiterals) atom covered
      exact congrArg Prod.snd pairs
    · have unnamed : conjunction.sign atom = .absent := by
        by_contra named
        exact covered (within atom named).1
      have otherUnnamed : other.sign atom = .absent := by
        by_contra named
        exact covered (otherWithin atom named).1
      rw [unnamed, otherUnnamed]
  have literals : conjunction.literals = other.literals := by
    calc
      conjunction.literals =
          (conjunction.restrictTo conjunction.atoms).literals := by
        rw [restrictTo_atoms distinct]
      _ = (other.restrictTo other.atoms).literals := by
        rw [restrictTo, restrictTo, sameAtoms]
        exact List.map_congr_left fun atom _ =>
          congrArg (atom, ·) (sameSigns atom)
      _ = other.literals := by rw [restrictTo_atoms (sameAtoms ▸ distinct)]
  exact Bool.and_eq_true_iff.mpr ⟨beq_iff_eq.mpr literals, sameBound⟩

end

section

variable {atoms : List Atom}

theorem conjoinLiterals?_map {left right joined : Atom → Sign}
    (together : ∀ atom,
      (left atom).conjoin? (right atom) = some (joined atom)) :
    conjoinLiterals? (atoms.map fun atom => (atom, left atom))
        (atoms.map fun atom => (atom, right atom)) =
      some (atoms.map fun atom => (atom, joined atom)) := by
  induction atoms with
  | nil => rfl
  | cons atom rest ih =>
      simp only [List.map_cons, conjoinLiterals?, together, ih]
      rfl

/-- A literal adds its sign to a conjunction that says nothing of its atom. -/
theorem single_conjoin? (atoms : List Atom) (atom : Atom) (sign : Sign)
    (signs : Atom → Sign) {bound : Degree} (unnamed : signs atom = .absent)
    (nonzero : bound.isZero = false) :
    (single atoms atom sign).conjoin?
        ⟨atoms.map fun other => (other, signs other), bound⟩ =
      some ⟨atoms.map fun other =>
        (other, if other = atom then sign else signs other), bound⟩ := by
  have together : ∀ other, (if other = atom then sign else .absent).conjoin?
      (signs other) = some (if other = atom then sign else signs other) := by
    intro other
    split
    · rename_i same
      rw [same, unnamed]
      cases sign <;> rfl
    · cases signs other <;> rfl
  simp only [conjoin?, single, conjoinLiterals?_map together, Degree.one_min,
    nonzero]
  rfl

end

end Conjunction

end Possibilistic
