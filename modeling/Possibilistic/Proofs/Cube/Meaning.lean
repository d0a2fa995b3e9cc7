import Possibilistic.Proofs.Cube.Cover
import Possibilistic.Proofs.Formula.Joining
import Possibilistic.Proofs.World.Numbering

/-!
# What cubes say of worlds

The formula of a cube holds in the worlds whose points the cube matches, so a
minimal cover of some worlds of a vocabulary holds in just these.  The cover of
all of them always holds.
-/

namespace Possibilistic

namespace Cube

/-- Whether an atom is true in a world, as a mark. -/
def markIn (world : Interpretation) (atom : Atom) : Mark :=
  if (world.truth atom).isOne then .one else .zero

theorem markIn_ne_free (world : Interpretation) (atom : Atom) :
    markIn world atom ≠ .free := by
  rw [markIn]
  split
  · nofun
  · nofun

section

variable {atoms : List Atom} (ascending : Atom.Ascending atoms)
  {world : Interpretation} (inAll : world ∈ World.all atoms)

include ascending inAll

theorem cells_ofInterpretation :
    (ofInterpretation world).cells =
      atoms.map fun atom => (atom, markIn world atom) := by
  rw [ofInterpretation, World.atoms_of_mem_all ascending inAll]
  rfl

theorem atoms_ofInterpretation : (ofInterpretation world).atoms = atoms := by
  rw [Cube.atoms, cells_ofInterpretation ascending inAll, List.map_map]
  exact List.map_id atoms

theorem isPoint_ofInterpretation :
    IsPoint (ofInterpretation world).cells := by
  rw [cells_ofInterpretation ascending inAll]
  intro cell member
  obtain ⟨atom, _, equality⟩ := List.mem_map.mp member
  rw [← equality]
  exact markIn_ne_free world atom

/-- A cube matches a world when each of its marks does. -/
theorem covers_ofInterpretation_iff {cube : Cube}
    (cubeAtoms : cube.atoms = atoms) :
    cube.covers (ofInterpretation world) = true ↔
      ∀ cell ∈ cube.cells, cell.2.covers (markIn world cell.1) = true := by
  have aligned : (ofInterpretation world).cells =
      cube.cells.map fun cell => (cell.1, markIn world cell.1) := by
    rw [cells_ofInterpretation ascending inAll, ← cubeAtoms, Cube.atoms,
      List.map_map]
    rfl
  have sameAtoms : cube.atoms = (ofInterpretation world).atoms := by
    rw [cubeAtoms, atoms_ofInterpretation ascending inAll]
  rw [covers_iff sameAtoms, aligned, Covers, List.forall₂_map_right_iff,
    List.forall₂_same]
  simp

end

section

variable {atoms : List Atom} (ascending : Atom.Ascending atoms)
  (nonconstant : ∀ atom ∈ atoms, atom.constant? = none)
  {world : Interpretation} (inAll : world ∈ World.all atoms)

include ascending nonconstant inAll

omit ascending in
/-- The literal of a cell holds where its mark matches. -/
theorem truth_literal_isOne_iff {cell : Atom × Mark}
    (member : cell.1 ∈ atoms) :
    (∀ literal ∈ literal? cell, (literal.truth world).isOne = true) ↔
      cell.2.covers (markIn world cell.1) = true := by
  obtain ⟨atom, mark⟩ := cell
  obtain ⟨chosen, assigned⟩ := World.exists_bitDegree_of_mem_all inAll member
  have truth : world.truth atom = World.bitDegree chosen := by
    simp only [Interpretation.truth, nonconstant atom member]
    exact assigned
  have full : (world.truth atom).isOne = chosen := by
    rw [truth, World.isOne_bitDegree]
  have denied : (world.truth atom).complement.isOne = !chosen := by
    rw [truth]
    cases chosen with
    | true => decide +kernel
    | false => decide +kernel
  cases mark with
  | free => simp [literal?, Mark.covers]
  | one =>
      cases chosen <;>
        simp [literal?, Formula.truth, full, markIn, Mark.covers]
  | zero =>
      cases chosen <;>
        simp [literal?, Formula.truth, full, denied, markIn, Mark.covers]

/-- The formula of a cube holds in the worlds that the cube matches. -/
theorem truth_formula_isOne_iff {cube : Cube} (cubeAtoms : cube.atoms = atoms) :
    (cube.formula.truth world).isOne = true ↔
      cube.covers (ofInterpretation world) = true := by
  rw [formula, Formula.truth_conjAll_isOne_iff,
    covers_ofInterpretation_iff ascending inAll cubeAtoms]
  have known : ∀ cell ∈ cube.cells, cell.1 ∈ atoms := by
    intro cell member
    rw [← cubeAtoms]
    exact List.mem_map_of_mem member
  constructor
  · intro holds cell member
    apply (truth_literal_isOne_iff nonconstant inAll (known cell member)).mp
    intro literal isLiteral
    exact holds literal (List.mem_filterMap.mpr ⟨cell, member, isLiteral⟩)
  · intro covered literal isLiteral
    obtain ⟨cell, member, found⟩ := List.mem_filterMap.mp isLiteral
    exact (truth_literal_isOne_iff nonconstant inAll (known cell member)).mpr
      (covered cell member) literal found

end

/-- Every point over a vocabulary is that of a world. -/
theorem exists_ofInterpretation_eq {atoms : List Atom}
    (ascending : Atom.Ascending atoms)
    (nonconstant : ∀ atom ∈ atoms, atom.constant? = none) {point : Cube}
    (pointAtoms : point.atoms = atoms) (isPoint : IsPoint point.cells) :
    ∃ world ∈ World.all atoms, ofInterpretation world = point := by
  obtain ⟨world, inAll, choice⟩ := World.exists_mem_all atoms fun atom =>
    decide ((atom, Mark.one) ∈ point.cells)
  refine ⟨world, inAll, ?_⟩
  have distinct : (point.cells.map Prod.fst).Nodup := by
    change point.atoms.Nodup
    rw [pointAtoms]
    exact Atom.nodup_of_ascending ascending
  have marked : ∀ cell ∈ point.cells,
      (cell.1, markIn world cell.1) = cell := by
    intro ⟨atom, mark⟩ member
    have known : atom ∈ atoms := by
      rw [← pointAtoms]
      exact List.mem_map_of_mem (f := Prod.fst) member
    have isTrue : (world.truth atom).isOne =
        decide ((atom, Mark.one) ∈ point.cells) := by
      simp only [Interpretation.truth, nonconstant atom known,
        choice atom known, World.isOne_bitDegree]
    cases mark with
    | one => simp [markIn, isTrue, member]
    | free => exact absurd rfl (isPoint _ member)
    | zero =>
        have notOne : (atom, Mark.one) ∉ point.cells := by
          intro alsoOne
          cases List.inj_on_of_nodup_map distinct member alsoOne rfl
        simp [markIn, isTrue, notOne]
  have sameCells : (ofInterpretation world).cells = point.cells := by
    rw [cells_ofInterpretation ascending inAll, ← pointAtoms, Cube.atoms,
      List.map_map]
    exact (List.map_congr_left marked).trans (List.map_id _)
  cases point
  exact congrArg Cube.mk sameCells

/-- Different worlds have different points. -/
theorem eq_of_ofInterpretation_eq {atoms : List Atom}
    (ascending : Atom.Ascending atoms)
    (nonconstant : ∀ atom ∈ atoms, atom.constant? = none) {number other : Nat}
    (inRange : number < World.count atoms)
    (otherInRange : other < World.count atoms)
    (same : ofInterpretation (World.numbered atoms (number : Nat)) =
      ofInterpretation (World.numbered atoms (other : Nat))) :
    number = other := by
  have sameCells := congrArg cells same
  rw [cells_ofInterpretation ascending (World.mem_all.mpr ⟨_, inRange, rfl⟩),
    cells_ofInterpretation ascending
      (World.mem_all.mpr ⟨_, otherInRange, rfl⟩),
    List.map_inj_left] at sameCells
  apply World.eq_of_assigned_eq (Atom.nodup_of_ascending ascending) inRange
    otherInRange
  intro atom member
  have sameMark := congrArg Prod.snd (sameCells atom member)
  simp only [markIn, Interpretation.truth, nonconstant atom member] at sameMark
  apply Bool.eq_iff_iff.mpr
  constructor
  · intro full
    by_contra notFull
    simp [full, notFull] at sameMark
  · intro full
    by_contra notFull
    simp [full, notFull] at sameMark

section

variable {atoms : List Atom}
  (nonconstant : ∀ atom ∈ atoms, atom.constant? = none)

include nonconstant

theorem formula_over {cube : Cube} (cubeAtoms : cube.atoms = atoms) :
    cube.formula.isClassical = true ∧ cube.formula.mentions ⊆ atoms := by
  have literals : ∀ literal ∈ cube.cells.filterMap literal?,
      literal.isClassical = true ∧ literal.mentions ⊆ atoms := by
    intro literal isLiteral
    obtain ⟨⟨atom, mark⟩, member, found⟩ := List.mem_filterMap.mp isLiteral
    have known : atom ∈ atoms := by
      rw [← cubeAtoms]
      exact List.mem_map_of_mem (f := Prod.fst) member
    have unknown := nonconstant atom known
    cases mark with
    | free => cases found
    | one =>
        cases found
        simp [Formula.isClassical, Formula.mentions, Atom.isConstant, unknown,
          known]
    | zero =>
        cases found
        simp [Formula.isClassical, Formula.mentions, Atom.isConstant, unknown,
          known]
  constructor
  · exact Formula.isClassical_joinAll Formula.isClassical_top
      fun literal member => (literals literal member).1
  · apply Formula.mentions_joinAll_subset
    · rw [Formula.mentions_of_constant? Formula.constant?_top]
      exact List.nil_subset atoms
    · exact fun literal member => (literals literal member).2

theorem disjunction_over {cubes : List Cube} (isOver : Over atoms cubes) :
    (disjunction cubes).isClassical = true ∧
      (disjunction cubes).mentions ⊆ atoms := by
  have clauses : ∀ clause ∈ (cubes.map formula).foldl
      (fun clauses clause =>
        if clause ∈ clauses then clauses else clauses ++ [clause]) [],
      clause.isClassical = true ∧ clause.mentions ⊆ atoms := by
    intro clause member
    rw [mem_foldl_append_new, or_iff_right List.not_mem_nil] at member
    obtain ⟨cube, present, equality⟩ := List.mem_map.mp member
    rw [← equality]
    exact formula_over nonconstant (isOver cube present)
  rw [disjunction]
  split
  · refine ⟨Formula.isClassical_top, ?_⟩
    rw [Formula.mentions_of_constant? Formula.constant?_top]
    exact List.nil_subset atoms
  · constructor
    · exact Formula.isClassical_joinAll Formula.isClassical_bottom
        fun clause member => (clauses clause member).1
    · apply Formula.mentions_joinAll_subset
      · rw [Formula.mentions_of_constant? Formula.constant?_bottom]
        exact List.nil_subset atoms
      · exact fun clause member => (clauses clause member).2

/-- The disjunction of cubes holds in the worlds that one of them matches. -/
theorem truth_disjunction_isOne_iff (ascending : Atom.Ascending atoms)
    {world : Interpretation} (inAll : world ∈ World.all atoms)
    {cubes : List Cube} (isOver : Over atoms cubes) :
    ((disjunction cubes).truth world).isOne = true ↔
      ∃ cube ∈ cubes, cube.covers (ofInterpretation world) = true := by
  have clauses : (∃ clause ∈ (cubes.map formula).foldl
      (fun clauses clause =>
        if clause ∈ clauses then clauses else clauses ++ [clause]) [],
      (clause.truth world).isOne = true) ↔
        ∃ cube ∈ cubes, cube.covers (ofInterpretation world) = true := by
    simp only [mem_foldl_append_new, List.not_mem_nil, false_or,
      List.mem_map, exists_exists_and_eq_and]
    apply exists_congr
    intro cube
    apply and_congr_right
    intro member
    exact truth_formula_isOne_iff ascending nonconstant inAll
      (isOver cube member)
  rw [← clauses, disjunction]
  split
  · rename_i always
    have holds : ((Formula.top).truth world).isOne = true := by
      rw [Formula.truth_of_constant? Formula.constant?_top]
      exact Degree.isOne_iff.mpr rfl
    exact ⟨fun _ => ⟨Formula.top, always, holds⟩, fun _ => holds⟩
  · exact Formula.truth_disjAll_isOne_iff

end

/-- A cube without fixed variables makes the disjunction the constant one. -/
theorem disjunction_eq_top {cubes : List Cube} {cube : Cube}
    (member : cube ∈ cubes) (allFree : ∀ cell ∈ cube.cells, cell.2 = .free) :
    disjunction cubes = Formula.top := by
  have noLiterals : cube.cells.filterMap literal? = [] := by
    apply List.filterMap_eq_nil_iff.mpr
    intro ⟨atom, mark⟩ present
    rw [show mark = .free from allFree _ present]
    rfl
  have always : cube.formula = Formula.top := by
    rw [formula, noLiterals]
    rfl
  rw [disjunction, if_pos]
  rw [mem_foldl_append_new]
  exact .inr (List.mem_map.mpr ⟨cube, member, always⟩)

section

variable {atoms : List Atom} (ascending : Atom.Ascending atoms)
  {worlds : List Interpretation} (known : worlds ⊆ World.all atoms)

include ascending known

theorem over_ofInterpretation : Over atoms (worlds.map ofInterpretation) := by
  intro cube member
  obtain ⟨world, present, equality⟩ := List.mem_map.mp member
  rw [← equality]
  exact atoms_ofInterpretation ascending (known present)

theorem isPoint_of_mem_map {cube : Cube}
    (member : cube ∈ worlds.map ofInterpretation) : IsPoint cube.cells := by
  obtain ⟨world, present, equality⟩ := List.mem_map.mp member
  rw [← equality]
  exact isPoint_ofInterpretation ascending (known present)

/-- The minimal cover of worlds holds in the worlds with the same points. -/
theorem truth_minimize_isOne_iff
    (nonconstant : ∀ atom ∈ atoms, atom.constant? = none)
    {world : Interpretation} (inAll : world ∈ World.all atoms) :
    ((disjunction (minimize (worlds.map ofInterpretation))).truth world).isOne =
        true ↔
      ∃ other ∈ worlds, ofInterpretation other = ofInterpretation world := by
  have isOver := over_ofInterpretation ascending known
  rw [truth_disjunction_isOne_iff nonconstant ascending inAll
      (over_minimize isOver),
    exists_mem_minimize_covers_point_iff isOver
      (atoms_ofInterpretation ascending inAll)
      (isPoint_ofInterpretation ascending inAll)]
  constructor
  · rintro ⟨cube, member, covered⟩
    obtain ⟨other, present, equality⟩ := List.mem_map.mp member
    have sameAtoms : cube.atoms = (ofInterpretation world).atoms :=
      (isOver cube member).trans (atoms_ofInterpretation ascending inAll).symm
    have sameCells := ((covers_iff sameAtoms).mp covered).eq_of_isPoint
      (isPoint_of_mem_map ascending known member)
    refine ⟨other, present, equality.trans ?_⟩
    cases cube
    exact congrArg Cube.mk sameCells
  · rintro ⟨other, present, equality⟩
    refine ⟨ofInterpretation other, List.mem_map_of_mem present, ?_⟩
    rw [equality]
    exact (covers_iff rfl).mpr (Covers.refl _)

/-- The minimal cover of all worlds is the constant one. -/
theorem disjunction_minimize_eq_top
    (nonconstant : ∀ atom ∈ atoms, atom.constant? = none)
    (full : World.all atoms ⊆ worlds) :
    disjunction (minimize (worlds.map ofInterpretation)) = Formula.top := by
  have isOver := over_ofInterpretation ascending known
  obtain ⟨world, inAll, _⟩ := World.exists_mem_all atoms fun _ => true
  obtain ⟨chosen, isChosen, _⟩ := exists_mem_minimize_covers isOver
    (List.mem_map_of_mem (full inAll))
  apply disjunction_eq_top isChosen
  apply isFree_of_mem_primes (over_distinct isOver)
    (fun cube member => isPoint_of_mem_map ascending known
      (mem_distinct.mp member)) _ (minimize_subset_primes _ isChosen)
  intro point pointAtoms isPoint
  obtain ⟨other, otherInAll, equality⟩ :=
    exists_ofInterpretation_eq ascending nonconstant pointAtoms isPoint
  rw [mem_distinct, ← equality]
  exact List.mem_map_of_mem (full otherInAll)

end

end Cube

end Possibilistic
