import Mathlib.Data.List.Induction
import Mathlib.Data.List.Nodup
import Possibilistic.Proofs.Cube.Cover

/-!
# How far merging and covering go

The executable rounds of merging and the executable choices of a cover have a
number of steps that is computed in advance.  `MergesOut` and `CoversOut`
describe the same work without such a number: merging goes on as long as a cube
is left, and covering as long as one is uncovered.  For cubes over the same
variables both come to an end, no merge is refused on the way, and the
executable functions give the result.
-/

namespace Possibilistic

namespace Cube

/-- Every merge of two cubes of a list, the earlier one first, unless some
two have different variables. -/
def combineAll : List Cube → Except Fault (List Cube)
  | [] => .ok []
  | cube :: rest => do
      let found ← rest.filterMapM cube.combine
      pure (found ++ (← combineAll rest))

/-- Rounds of merging as long as a cube is left, with the primes found so
far. -/
inductive MergesOut : (current primes result : List Cube) → Prop where
  | done (primes : List Cube) : MergesOut [] primes primes
  | round {current found primes result : List Cube} :
      current ≠ [] → combineAll current = .ok found →
      MergesOut (distinct found)
        (distinct (primes ++
          current.filter fun cube => !mergesWithin current cube)) result →
      MergesOut current primes result

/-- Choices of the widest prime as long as a cube is uncovered.  There is no
choice among no primes. -/
inductive CoversOut (primes : List Cube) :
    (uncovered cover result : List Cube) → Prop where
  | done (cover : List Cube) : CoversOut primes [] cover cover
  | choice {prime best : Cube} {others uncovered cover result : List Cube} :
      uncovered ≠ [] → primes = prime :: others →
      best = widest uncovered prime others →
      CoversOut primes (uncovered.filter fun cube => !best.covers cube)
        (cover ++ [best]) result →
      CoversOut primes uncovered cover result

/-- The primes of the distinct cubes, then the essential ones, then choices
until every cube is covered. -/
def FindsCover (cubes result : List Cube) : Prop :=
  ∃ primes, MergesOut (distinct (distinct cubes)) [] primes ∧
    CoversOut primes
      ((distinct cubes).filter fun cube =>
        !(essentials primes (distinct cubes)).any (·.covers cube))
      (essentials primes (distinct cubes)) result

theorem nodup_foldl_append_new {α : Type} [DecidableEq α] {seen : List α}
    (distinct : seen.Nodup) (elements : List α) :
    (elements.foldl
      (fun seen new => if new ∈ seen then seen else seen ++ [new])
      seen).Nodup := by
  apply List.foldlRecOn (motive := List.Nodup) elements _ distinct
  intro known nodup new _
  split
  · exact nodup
  · rename_i absent
    exact List.nodup_append.mpr ⟨nodup, List.nodup_singleton new,
      fun other member last isLast =>
        fun same => absent (List.mem_singleton.mp isLast ▸ same ▸ member)⟩

theorem nodup_distinct (cubes : List Cube) : (distinct cubes).Nodup :=
  nodup_foldl_append_new List.nodup_nil cubes

theorem distinct_of_nodup {cubes : List Cube} (nodup : cubes.Nodup) :
    distinct cubes = cubes := by
  induction cubes using List.reverseRecOn with
  | nil => rfl
  | append_singleton cubes cube ih =>
      obtain ⟨earlier, _, apart⟩ := List.nodup_append.mp nodup
      have absent : cube ∉ cubes := fun member =>
        apart cube member cube List.mem_cons_self rfl
      have known := ih earlier
      rw [distinct] at known ⊢
      rw [List.foldl_append, known, List.foldl_cons, if_neg absent,
        List.foldl_nil]

theorem nodup_primesFrom {primes : List Cube} (nodup : primes.Nodup)
    (rounds : Nat) (current : List Cube) :
    (primesFrom rounds current primes).Nodup := by
  induction rounds generalizing current primes with
  | zero => exact nodup
  | succ rounds ih => exact ih (nodup_distinct _) _

/-- Each prime is listed once. -/
theorem nodup_primes (cubes : List Cube) : (primes cubes).Nodup :=
  nodup_primesFrom List.nodup_nil _ _

theorem primesFrom_nil {primes : List Cube} (nodup : primes.Nodup)
    (rounds : Nat) : primesFrom rounds [] primes = primes := by
  induction rounds with
  | zero => rfl
  | succ rounds ih =>
      have nothingNew : primesFrom (rounds + 1) [] primes =
          primesFrom rounds [] (distinct (primes ++ [])) := rfl
      rw [nothingNew, List.append_nil, distinct_of_nodup nodup, ih]

theorem combine_of_atoms_eq {left right : Cube}
    (sameAtoms : left.atoms = right.atoms) :
    left.combine right = .ok (left.merge? right) := by
  rw [combine, if_neg (not_not_intro sameAtoms)]

theorem filterMapM_eq_ok {α β : Type} {found : α → Option β}
    {check : α → Except Fault (Option β)} {elements : List α}
    (accepted : ∀ element ∈ elements, check element = .ok (found element)) :
    elements.filterMapM check = .ok (elements.filterMap found) := by
  induction elements with
  | nil => rfl
  | cons head tail ih =>
      obtain ⟨headAccepted, tailAccepted⟩ := List.forall_mem_cons.mp accepted
      rw [List.filterMapM_cons, headAccepted, ih tailAccepted]
      cases known : found head with
      | none =>
          rw [List.filterMap_cons_none known]
          rfl
      | some value =>
          rw [List.filterMap_cons_some known]
          rfl

section

variable {atoms : List Atom} {cubes : List Cube} (isOver : Over atoms cubes)

include isOver

/-- Cubes over the same variables merge without a fault. -/
theorem combineAll_eq_ok : combineAll cubes = .ok (merges cubes) := by
  induction cubes with
  | nil => rfl
  | cons head tail ih =>
      obtain ⟨headOver, tailOver⟩ := List.forall_mem_cons.mp isOver
      have accepted : ∀ other ∈ tail,
          head.combine other = .ok (head.merge? other) :=
        fun other member =>
          combine_of_atoms_eq (headOver.trans (tailOver other member).symm)
      rw [combineAll, filterMapM_eq_ok accepted, ih tailOver]
      rfl

/-- Enough rounds are those that leave no variable fixed. -/
theorem mergesOut_primesFrom {rounds : Nat} {primes : List Cube}
    (nodup : primes.Nodup)
    (enough : ∀ cube ∈ cubes,
      cube.cells.length < freedom cube.cells + rounds) :
    MergesOut cubes primes (primesFrom rounds cubes primes) := by
  induction rounds generalizing cubes primes with
  | zero =>
      have none : cubes = [] := by
        apply List.eq_nil_iff_forall_not_mem.mpr
        intro cube member
        have bounded : freedom cube.cells ≤ cube.cells.length :=
          List.countP_le_length
        have := enough cube member
        omega
      rw [none]
      exact .done primes
  | succ rounds ih =>
      by_cases empty : cubes = []
      · rw [empty, primesFrom_nil nodup]
        exact .done primes
      · apply MergesOut.round empty (combineAll_eq_ok isOver)
        apply ih (over_merged isOver) (nodup_distinct _)
        intro cube member
        obtain ⟨left, present, _, _, merges⟩ :=
          (mem_merged_iff isOver).mp member
        have sameLength : cube.cells.length = left.cells.length :=
          merges.covers_left.length_eq
        have freed := merges.freedom_eq
        have := enough left present
        omega

/-- Merging comes to an end with the primes. -/
theorem mergesOut_primes : MergesOut (distinct cubes) [] (primes cubes) := by
  apply mergesOut_primesFrom (over_distinct isOver) List.nodup_nil
  intro cube member
  have counted := @le_foldl_max _ (fun cube : Cube => cube.cells.length)
    cubes 0 cube (mem_distinct.mp member)
  omega

end

/-- Covering comes to an end if the primes can cover every cube. -/
theorem coversOut_coverRest {primes uncovered cover : List Cube} {steps : Nat}
    (enough : uncovered.length ≤ steps)
    (coverable : ∀ cube ∈ uncovered, ∃ prime ∈ primes,
      prime.covers cube = true) :
    CoversOut primes uncovered cover
      (coverRest primes steps uncovered cover) := by
  induction steps generalizing uncovered cover with
  | zero =>
      rw [List.length_eq_zero_iff.mp (Nat.le_zero.mp enough)]
      exact .done cover
  | succ steps ih =>
      cases uncovered with
      | nil => exact .done cover
      | cons first rest =>
          have firstCoverable := coverable first List.mem_cons_self
          cases primes with
          | nil =>
              obtain ⟨_, isPrime, _⟩ := firstCoverable
              cases isPrime
          | cons prime others =>
              have fewer := length_filter_widest_lt firstCoverable
                (List.mem_cons_self : first ∈ first :: rest)
              apply CoversOut.choice (List.cons_ne_nil first rest) rfl rfl
              apply ih
              · exact Nat.le_of_lt_succ (Nat.lt_of_lt_of_le fewer enough)
              · intro cube member
                exact coverable cube (List.mem_filter.mp member).1

/-- The search for a cover comes to an end with the minimal cover. -/
theorem findsCover_minimize {atoms : List Atom} {cubes : List Cube}
    (isOver : Over atoms cubes) : FindsCover cubes (minimize cubes) := by
  refine ⟨primes (distinct cubes), mergesOut_primes (over_distinct isOver), ?_⟩
  apply coversOut_coverRest (Nat.le_refl _)
  intro cube member
  exact exists_mem_primes_covers isOver (List.mem_filter.mp member).1

end Cube

end Possibilistic
