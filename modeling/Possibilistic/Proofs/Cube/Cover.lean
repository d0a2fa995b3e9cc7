import Possibilistic.Proofs.Cube.Primes

/-!
# Covers

A minimal cover consists of primes.  The greedy choice covers a further cube at
every step as long as the primes can, so no cube is left; the cover matches the
points that the given cubes match, and no others.
-/

namespace Possibilistic

namespace Cube

theorem essentials_subset (primes cubes : List Cube) :
    essentials primes cubes ⊆ primes := by
  apply List.foldlRecOn (motive := fun chosen => chosen ⊆ primes)
  · exact List.nil_subset primes
  · intro chosen included cube _
    split
    · rename_i prime only
      split
      · exact included
      · apply List.append_subset.mpr
        refine ⟨included, List.cons_subset.mpr ⟨?_, List.nil_subset _⟩⟩
        have filtered : prime ∈ primes.filter (·.covers cube) := by
          rw [only]
          exact List.mem_singleton_self prime
        exact (List.mem_filter.mp filtered).1
    · exact included

theorem widest_mem (uncovered : List Cube) (best : Cube)
    (primes : List Cube) : widest uncovered best primes ∈ best :: primes := by
  induction primes generalizing best with
  | nil => exact List.mem_singleton_self best
  | cons prime rest ih =>
      rw [widest, List.foldl_cons]
      split
      · exact List.mem_cons_of_mem _ (ih prime)
      · rcases List.mem_cons.mp (ih best) with same | later
        · rw [← widest, same]
          exact List.mem_cons_self
        · exact List.mem_cons_of_mem _ (List.mem_cons_of_mem _ later)

theorem coverage_le_widest {uncovered : List Cube} {best prime : Cube}
    {primes : List Cube} (member : prime ∈ best :: primes) :
    coverage uncovered prime ≤
      coverage uncovered (widest uncovered best primes) := by
  induction primes generalizing best prime with
  | nil =>
      rw [List.mem_singleton.mp member]
      exact Nat.le_refl _
  | cons next rest ih =>
      rw [widest, List.foldl_cons, ← widest]
      have bestReached := @ih best best List.mem_cons_self
      have nextReached := @ih next next List.mem_cons_self
      split
      · rename_i wider
        rcases List.mem_cons.mp member with isBest | later
        · rw [isBest]
          exact Nat.le_trans (Nat.le_of_lt wider) nextReached
        · exact ih later
      · rename_i notWider
        rcases List.mem_cons.mp member with isBest | later
        · rw [isBest]
          exact bestReached
        · rcases List.mem_cons.mp later with isNext | inRest
          · rw [isNext]
            exact Nat.le_trans (Nat.le_of_not_lt notWider) bestReached
          · exact ih (List.mem_cons_of_mem _ inRest)

theorem subset_coverRest (primes : List Cube) (steps : Nat)
    (uncovered cover : List Cube) :
    cover ⊆ coverRest primes steps uncovered cover := by
  induction steps generalizing uncovered cover with
  | zero => exact List.Subset.refl cover
  | succ steps ih =>
      cases uncovered with
      | nil => exact List.Subset.refl cover
      | cons first rest =>
          cases primes with
          | nil => exact List.Subset.refl cover
          | cons prime others =>
              exact List.Subset.trans (List.subset_append_left _ _) (ih _ _)

theorem coverRest_subset {primes cover : List Cube}
    (included : cover ⊆ primes) (steps : Nat) (uncovered : List Cube) :
    coverRest primes steps uncovered cover ⊆ primes := by
  induction steps generalizing uncovered cover with
  | zero => exact included
  | succ steps ih =>
      cases uncovered with
      | nil => exact included
      | cons first rest =>
          cases primes with
          | nil => exact included
          | cons prime others =>
              apply ih
              apply List.append_subset.mpr
              refine ⟨included, List.cons_subset.mpr ⟨?_, List.nil_subset _⟩⟩
              exact widest_mem _ _ _

/-- The widest prime covers some cube of the list, if a prime does. -/
theorem exists_mem_widest_covers {prime first : Cube}
    {others uncovered : List Cube}
    (coverable : ∃ wanted ∈ prime :: others, wanted.covers first = true)
    (member : first ∈ uncovered) :
    ∃ cube ∈ uncovered,
      (widest uncovered prime others).covers cube = true := by
  obtain ⟨wanted, isPrime, covered⟩ := coverable
  have covering : 0 < coverage uncovered wanted :=
    List.countP_pos_iff.mpr ⟨first, member, covered⟩
  exact List.countP_pos_iff.mp
    (Nat.lt_of_lt_of_le covering (coverage_le_widest isPrime))

/-- The widest prime leaves fewer cubes uncovered, if a prime covers one. -/
theorem length_filter_widest_lt {prime first : Cube}
    {others uncovered : List Cube}
    (coverable : ∃ wanted ∈ prime :: others, wanted.covers first = true)
    (member : first ∈ uncovered) :
    (uncovered.filter fun cube =>
      !(widest uncovered prime others).covers cube).length <
        uncovered.length := by
  obtain ⟨other, otherMember, otherCovered⟩ :=
    exists_mem_widest_covers coverable member
  exact List.length_filter_lt_length_iff_exists.mpr
    ⟨other, otherMember, by simpa using otherCovered⟩

/-- As many steps as cubes are enough, if the primes can cover every cube. -/
theorem exists_mem_coverRest_covers {primes uncovered cover : List Cube}
    {steps : Nat} (enough : uncovered.length ≤ steps)
    (coverable : ∀ cube ∈ uncovered, ∃ prime ∈ primes,
      prime.covers cube = true) {cube : Cube} (member : cube ∈ uncovered) :
    ∃ chosen ∈ coverRest primes steps uncovered cover,
      chosen.covers cube = true := by
  induction steps generalizing uncovered cover with
  | zero =>
      rw [List.length_eq_zero_iff.mp (Nat.le_zero.mp enough)] at member
      cases member
  | succ steps ih =>
      cases uncovered with
      | nil => cases member
      | cons first rest =>
          have firstCoverable := coverable first List.mem_cons_self
          cases primes with
          | nil =>
              obtain ⟨_, isPrime, _⟩ := firstCoverable
              cases isPrime
          | cons prime others =>
              let best := widest (first :: rest) prime others
              let left := (first :: rest).filter fun cube => !best.covers cube
              change ∃ chosen ∈ coverRest (prime :: others) steps left
                (cover ++ [best]), chosen.covers cube = true
              by_cases done : best.covers cube = true
              · refine ⟨best, subset_coverRest _ _ _ _ ?_, done⟩
                exact List.mem_append_right _ (List.mem_singleton_self best)
              · have fewer : left.length < (first :: rest).length :=
                  length_filter_widest_lt firstCoverable List.mem_cons_self
                apply ih (Nat.le_of_lt_succ (Nat.lt_of_lt_of_le fewer enough))
                · intro other otherMember
                  exact coverable other (List.mem_filter.mp otherMember).1
                · exact List.mem_filter.mpr ⟨member, by simpa using done⟩

theorem minimize_subset_primes (cubes : List Cube) :
    minimize cubes ⊆ primes (distinct cubes) :=
  coverRest_subset (essentials_subset _ _) _ _

section

variable {atoms : List Atom} {cubes : List Cube} (isOver : Over atoms cubes)

include isOver

theorem over_minimize : Over atoms (minimize cubes) :=
  fun cube member => over_primes (over_distinct isOver) cube
    (minimize_subset_primes cubes member)

/-- The primes can cover every cube of the list. -/
theorem exists_mem_primes_covers {cube : Cube}
    (member : cube ∈ distinct cubes) :
    ∃ prime ∈ primes (distinct cubes), prime.covers cube = true := by
  obtain ⟨prime, isPrime, covered⟩ :=
    exists_prime_covers (over_distinct isOver) member
  exact ⟨prime, isPrime, (covers_iff covered.map_fst).mpr covered⟩

/-- Every cube of the list is covered. -/
theorem exists_mem_minimize_covers {cube : Cube} (member : cube ∈ cubes) :
    ∃ chosen ∈ minimize cubes, chosen.covers cube = true := by
  have inDistinct := mem_distinct.mpr member
  let chosen := essentials (primes (distinct cubes)) (distinct cubes)
  by_cases essential : chosen.any (·.covers cube) = true
  · obtain ⟨prime, isChosen, covered⟩ := List.any_eq_true.mp essential
    exact ⟨prime, subset_coverRest _ _ _ _ isChosen, covered⟩
  · apply exists_mem_coverRest_covers (Nat.le_refl _)
    · intro other otherMember
      exact exists_mem_primes_covers isOver (List.mem_filter.mp otherMember).1
    · exact List.mem_filter.mpr ⟨inDistinct, by simpa using essential⟩

/-- The cover matches the points that the given cubes match. -/
theorem exists_mem_minimize_covers_point_iff {point : Cube}
    (pointAtoms : point.atoms = atoms) (isPoint : IsPoint point.cells) :
    (∃ chosen ∈ minimize cubes, chosen.covers point = true) ↔
      ∃ cube ∈ cubes, cube.covers point = true := by
  have distinctOver := over_distinct isOver
  constructor
  · rintro ⟨chosen, member, covered⟩
    have sameAtoms : chosen.atoms = point.atoms :=
      (over_minimize isOver chosen member).trans pointAtoms.symm
    obtain ⟨cube, inCubes, cubeCovers⟩ :=
      exists_covers_point_of_mem_primes distinctOver
        (minimize_subset_primes cubes member) isPoint
        ((covers_iff sameAtoms).mp covered)
    exact ⟨cube, mem_distinct.mp inCubes,
      (covers_iff cubeCovers.map_fst).mpr cubeCovers⟩
  · rintro ⟨cube, member, covered⟩
    obtain ⟨chosen, isChosen, chosenCovers⟩ :=
      exists_mem_minimize_covers isOver member
    have cubeAtoms : cube.atoms = atoms := isOver cube member
    have chosenAtoms : chosen.atoms = atoms :=
      over_minimize isOver chosen isChosen
    refine ⟨chosen, isChosen, ?_⟩
    apply (covers_iff (chosenAtoms.trans pointAtoms.symm)).mpr
    exact ((covers_iff (chosenAtoms.trans cubeAtoms.symm)).mp
      chosenCovers).trans
        ((covers_iff (cubeAtoms.trans pointAtoms.symm)).mp covered)

end

end Cube

end Possibilistic
