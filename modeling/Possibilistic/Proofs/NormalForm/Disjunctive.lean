import Possibilistic.NormalForm.Disjunctive
import Possibilistic.Proofs.Formula.Expansion
import Possibilistic.Proofs.NormalForm.Conjunction

/-!
# The truth of disjunctive forms

A disjunctive form reaches the positive levels that one of its terms reaches.
A level that the form of a formula reaches, the formula reaches.  The converse
fails where contradictory terms were left out, but only for levels that some
atom and its negation both reach: at most one half, and none in a crisp world.
Main statement: disjunctive normal form is a lower bound of the formula's truth
and exact above one half and in crisp worlds.
-/

namespace Possibilistic

namespace DisjunctiveForm

variable {world : Interpretation} {level : Degree}

/-- One term reaches the level. -/
def Reaches (world : Interpretation) (level : Degree)
    (form : DisjunctiveForm) : Prop :=
  ∃ term ∈ form.terms, term.Reaches world level

/-- The formula has the truth of its best term. -/
theorem le_truth_formula_iff {form : DisjunctiveForm}
    (positive : 0 < level.units) :
    level ≤ form.formula.truth world ↔ form.Reaches world level := by
  rw [formula, Formula.le_truth_disjAll_iff positive]
  simp only [List.mem_map, exists_exists_and_eq_and,
    Conjunction.le_truth_formula_iff, Reaches]

theorem reaches_insert_iff {form : DisjunctiveForm}
    {conjunction : Conjunction} :
    (form.insert conjunction).Reaches world level ↔
      form.Reaches world level ∨ conjunction.Reaches world level := by
  unfold insert
  split
  · rename_i present
    obtain ⟨term, member, same⟩ := List.any_eq_true.mp present
    constructor
    · exact .inl
    · rintro (reached | reached)
      · exact reached
      · exact ⟨term, member, (Conjunction.reaches_congr same).mpr reached⟩
  · simp only [Reaches, List.mem_append, List.mem_singleton, or_and_right,
      exists_or, exists_eq_left]

theorem reaches_insertAll_iff {form : DisjunctiveForm}
    {conjunctions : List Conjunction} :
    (form.insertAll conjunctions).Reaches world level ↔
      form.Reaches world level ∨
        ∃ conjunction ∈ conjunctions, conjunction.Reaches world level := by
  unfold insertAll
  induction conjunctions generalizing form with
  | nil => simp
  | cons head tail ih =>
      rw [List.foldl_cons, ih, reaches_insert_iff, List.exists_mem_cons_iff,
        or_assoc]

theorem reaches_ofList_iff {conjunctions : List Conjunction} :
    (ofList conjunctions).Reaches world level ↔
      ∃ conjunction ∈ conjunctions, conjunction.Reaches world level := by
  rw [ofList, reaches_insertAll_iff]
  simp [Reaches, empty]

theorem mem_insertAll {form : DisjunctiveForm} {term : Conjunction}
    {conjunctions : List Conjunction}
    (member : term ∈ (form.insertAll conjunctions).terms) :
    term ∈ form.terms ∨ term ∈ conjunctions := by
  unfold insertAll at member
  induction conjunctions generalizing form with
  | nil => exact .inl member
  | cons head tail ih =>
      rcases ih member with inserted | inTail
      · unfold insert at inserted
        split at inserted
        · exact .inl inserted
        · rcases List.mem_append.mp inserted with inForm | isHead
          · exact .inl inForm
          · rw [List.mem_singleton.mp isHead]
            exact .inr List.mem_cons_self
      · exact .inr (List.mem_cons_of_mem _ inTail)

theorem mem_ofList {term : Conjunction} {conjunctions : List Conjunction}
    (member : term ∈ (ofList conjunctions).terms) : term ∈ conjunctions := by
  rcases mem_insertAll member with none | inList
  · cases none
  · exact inList

/-- Every term is over the vocabulary and has a bound that does not vanish. -/
def IsOver (atoms : List Atom) (form : DisjunctiveForm) : Prop :=
  ∀ term ∈ form.terms, term.atoms = atoms ∧ term.bound.isZero = false

/-- No atom of the vocabulary reaches the level together with its negation. -/
def Decisive (world : Interpretation) (level : Degree) (atoms : List Atom) :
    Prop :=
  ∀ atom ∈ atoms, level ≤ world.truth atom →
    ¬level ≤ (world.truth atom).complement

theorem exists_of_mem_product {left right : DisjunctiveForm}
    {term : Conjunction} (member : term ∈ (left.product right).terms) :
    ∃ first ∈ left.terms, ∃ second ∈ right.terms,
      first.conjoin? second = some term := by
  have listed := mem_ofList member
  simpa only [List.mem_flatMap, List.mem_filterMap] using listed

section

variable {atoms : List Atom} {left right : DisjunctiveForm}
  (leftOver : left.IsOver atoms) (rightOver : right.IsOver atoms)

include leftOver rightOver

theorem isOver_insertAll : (left.insertAll right.terms).IsOver atoms := by
  intro term member
  rcases mem_insertAll member with inLeft | inRight
  · exact leftOver term inLeft
  · exact rightOver term inRight

theorem isOver_product : (left.product right).IsOver atoms := by
  intro term member
  obtain ⟨first, inLeft, second, inRight, together⟩ :=
    exists_of_mem_product member
  have sameAtoms : first.atoms = second.atoms := by
    rw [(leftOver first inLeft).1, (rightOver second inRight).1]
  refine ⟨?_, Conjunction.bound_of_conjoin? together⟩
  rw [Conjunction.atoms_of_conjoin? sameAtoms together,
    (leftOver first inLeft).1]

theorem reaches_of_product
    (reached : (left.product right).Reaches world level) :
    left.Reaches world level ∧ right.Reaches world level := by
  obtain ⟨term, member, termReached⟩ := reached
  obtain ⟨first, inLeft, second, inRight, together⟩ :=
    exists_of_mem_product member
  have sameAtoms : first.atoms = second.atoms := by
    rw [(leftOver first inLeft).1, (rightOver second inRight).1]
  obtain ⟨firstReached, secondReached⟩ :=
    (Conjunction.reaches_conjoin?_iff sameAtoms together).mp termReached
  exact ⟨⟨first, inLeft, firstReached⟩, ⟨second, inRight, secondReached⟩⟩

/-- No pair of terms that both reach a decisive level is contradictory. -/
theorem reaches_product (decisive : Decisive world level atoms)
    (leftReached : left.Reaches world level)
    (rightReached : right.Reaches world level) :
    (left.product right).Reaches world level := by
  obtain ⟨first, inLeft, firstReached⟩ := leftReached
  obtain ⟨second, inRight, secondReached⟩ := rightReached
  obtain ⟨firstAtoms, firstNonzero⟩ := leftOver first inLeft
  obtain ⟨secondAtoms, secondNonzero⟩ := rightOver second inRight
  have sameAtoms : first.atoms = second.atoms := by
    rw [firstAtoms, secondAtoms]
  cases together : first.conjoin? second with
  | none =>
      exfalso
      obtain ⟨atom, member, reached, complementReached⟩ :=
        Conjunction.exists_clash_of_conjoin? sameAtoms together firstNonzero
          secondNonzero firstReached secondReached
      exact decisive atom (firstAtoms ▸ member) reached complementReached
  | some term =>
      apply reaches_ofList_iff.mpr
      refine ⟨term, ?_, (Conjunction.reaches_conjoin?_iff sameAtoms
        together).mpr ⟨firstReached, secondReached⟩⟩
      exact List.mem_flatMap.mpr ⟨first, inLeft,
        List.mem_filterMap.mpr ⟨second, inRight, together⟩⟩

end

end DisjunctiveForm

end Possibilistic
