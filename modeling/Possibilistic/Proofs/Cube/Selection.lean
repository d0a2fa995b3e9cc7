import Possibilistic.Proofs.Cube.Completion

/-!
# Essential primes first

A prime is essential when it alone covers one of the given cubes.  A minimal
cover begins with the essential primes, and every prime of it covers a given
cube that no earlier one covers.  So no prime is taken twice, and there are at
most as many as there are distinct cubes.
-/

namespace Possibilistic

namespace Cube

/-- The only prime that covers some cube of the list. -/
def IsEssential (cubes : List Cube) (prime : Cube) : Prop :=
  prime ∈ primes cubes ∧ ∃ cube ∈ cubes, ∀ other ∈ primes cubes,
    (other.covers cube = true ↔ other = prime)

/-- Each chosen cube covers a cube of the list that no earlier one covers. -/
def EachAdds (cubes cover : List Cube) : Prop :=
  ∀ before chosen after, cover = before ++ chosen :: after →
    ∃ cube ∈ cubes, chosen.covers cube = true ∧
      ∀ earlier ∈ before, earlier.covers cube = false

namespace EachAdds

variable {cubes cover : List Cube}

theorem nil (cubes : List Cube) : EachAdds cubes [] := by
  intro before chosen after split
  simp at split

theorem append_singleton (adds : EachAdds cubes cover) {last cube : Cube}
    (present : cube ∈ cubes) (covered : last.covers cube = true)
    (uncovered : ∀ earlier ∈ cover, earlier.covers cube = false) :
    EachAdds cubes (cover ++ [last]) := by
  intro before chosen after split
  rcases List.eq_nil_or_concat' after with none | ⟨later, final, equality⟩
  · subst none
    obtain ⟨same, isLast⟩ := List.append_inj' split rfl
    cases isLast
    subst same
    exact ⟨cube, present, covered, uncovered⟩
  · subst equality
    rw [← List.cons_append, ← List.append_assoc] at split
    exact adds before chosen later (List.append_inj' split rfl).1

theorem of_append_singleton {last : Cube}
    (adds : EachAdds cubes (cover ++ [last])) : EachAdds cubes cover := by
  intro before chosen after split
  apply adds before chosen (after ++ [last])
  rw [split, List.append_assoc, List.cons_append]

/-- What the chosen cubes add is a list of distinct cubes, one for each. -/
theorem exists_additions (adds : EachAdds cubes cover) :
    ∃ additions : List Cube, additions.length = cover.length ∧
      additions.Nodup ∧ additions ⊆ cubes ∧
      ∀ cube ∈ additions, ∃ chosen ∈ cover, chosen.covers cube = true := by
  induction cover using List.reverseRecOn with
  | nil => exact ⟨[], rfl, List.nodup_nil, List.nil_subset _, nofun⟩
  | append_singleton cover last ih =>
      obtain ⟨additions, sameLength, nodup, included, covered⟩ :=
        ih adds.of_append_singleton
      obtain ⟨cube, present, lastCovers, uncovered⟩ := adds cover last [] rfl
      have fresh : cube ∉ additions := by
        intro member
        obtain ⟨chosen, isChosen, chosenCovers⟩ := covered cube member
        rw [uncovered chosen isChosen] at chosenCovers
        cases chosenCovers
      refine ⟨cube :: additions, ?_, List.nodup_cons.mpr ⟨fresh, nodup⟩,
        List.cons_subset.mpr ⟨present, included⟩, ?_⟩
      · rw [List.length_cons, List.length_append, sameLength]
        rfl
      · intro other member
        rcases List.mem_cons.mp member with same | earlier
        · rw [same]
          exact ⟨last, List.mem_append_right _ (List.mem_singleton_self last),
            lastCovers⟩
        · obtain ⟨chosen, isChosen, chosenCovers⟩ := covered other earlier
          exact ⟨chosen, List.mem_append_left _ isChosen, chosenCovers⟩

theorem length_le (adds : EachAdds cubes cover) :
    cover.length ≤ (distinct cubes).length := by
  obtain ⟨additions, sameLength, nodup, included, _⟩ := adds.exists_additions
  rw [← sameLength]
  apply nodup.length_le_of_subset
  intro cube member
  exact mem_distinct.mpr (included member)

theorem nodup (adds : EachAdds cubes cover) : cover.Nodup := by
  induction cover using List.reverseRecOn with
  | nil => exact List.nodup_nil
  | append_singleton cover last ih =>
      obtain ⟨cube, _, lastCovers, uncovered⟩ := adds cover last [] rfl
      refine List.nodup_append.mpr ⟨ih adds.of_append_singleton,
        List.nodup_singleton last, ?_⟩
      intro earlier member final isLast same
      rw [List.mem_singleton.mp isLast] at same
      rw [← same, uncovered earlier member] at lastCovers
      cases lastCovers

end EachAdds

/-- The only prime found at a cube is the only one that covers it. -/
theorem mem_and_covers_iff_of_filter {primes : List Cube} {cube prime : Cube}
    (only : primes.filter (·.covers cube) = [prime]) {other : Cube} :
    other ∈ primes ∧ other.covers cube = true ↔ other = prime := by
  have kept : other ∈ primes.filter (·.covers cube) ↔
      other ∈ primes ∧ other.covers cube = true := List.mem_filter
  rw [← kept, only, List.mem_singleton]

theorem mem_essentials_iff {primes cubes : List Cube} {prime : Cube} :
    prime ∈ essentials primes cubes ↔
      ∃ cube ∈ cubes, primes.filter (·.covers cube) = [prime] := by
  induction cubes using List.reverseRecOn with
  | nil => simp [essentials]
  | append_singleton cubes cube ih =>
      simp only [List.mem_append, List.mem_singleton, or_and_right, exists_or,
        exists_eq_left, ← ih]
      rw [essentials, List.foldl_append, ← essentials, List.foldl_cons,
        List.foldl_nil]
      split
      · rename_i only found
        rw [found]
        simp only [List.cons.injEq, and_true]
        split
        · rename_i present
          constructor
          · exact .inl
          · intro known
            rcases known with before | same
            · exact before
            · exact same ▸ present
        · rw [List.mem_append, List.mem_singleton, @eq_comm _ prime]
      · rename_i several
        constructor
        · exact .inl
        · intro known
          rcases known with before | found
          · exact before
          · exact absurd found (several prime)

/-- Essential primes are found at cubes that no earlier choice covers. -/
theorem eachAdds_essentials (primes cubes : List Cube) :
    EachAdds cubes (essentials primes cubes) := by
  have both : essentials primes cubes ⊆ primes ∧
      EachAdds cubes (essentials primes cubes) := by
    apply List.foldlRecOn
      (motive := fun chosen => chosen ⊆ primes ∧ EachAdds cubes chosen)
    · exact ⟨List.nil_subset primes, EachAdds.nil cubes⟩
    · intro chosen ⟨included, adds⟩ cube present
      split
      · rename_i prime only
        split
        · exact ⟨included, adds⟩
        · rename_i absent
          obtain ⟨isPrime, covered⟩ :=
            (mem_and_covers_iff_of_filter only).mpr rfl
          constructor
          · apply List.append_subset.mpr
            exact ⟨included,
              List.cons_subset.mpr ⟨isPrime, List.nil_subset _⟩⟩
          · apply adds.append_singleton present covered
            intro earlier member
            apply Bool.eq_false_iff.mpr
            intro earlierCovers
            have same := (mem_and_covers_iff_of_filter only).mp
              ⟨included member, earlierCovers⟩
            exact absent (same ▸ member)
      · exact ⟨included, adds⟩
  exact both.2

theorem prefix_coverRest (primes : List Cube) (steps : Nat)
    (uncovered cover : List Cube) :
    cover <+: coverRest primes steps uncovered cover := by
  induction steps generalizing uncovered cover with
  | zero => exact List.prefix_refl cover
  | succ steps ih =>
      cases uncovered with
      | nil => exact List.prefix_refl cover
      | cons first rest =>
          cases primes with
          | nil => exact List.prefix_refl cover
          | cons prime others =>
              exact (List.prefix_append cover _).trans (ih _ _)

/-- Each further choice covers a cube that was left uncovered. -/
theorem eachAdds_coverRest {primes cubes uncovered cover : List Cube}
    (steps : Nat) (adds : EachAdds cubes cover)
    (left : ∀ cube ∈ uncovered, cube ∈ cubes ∧
      ∀ chosen ∈ cover, chosen.covers cube = false)
    (coverable : ∀ cube ∈ uncovered, ∃ prime ∈ primes,
      prime.covers cube = true) :
    EachAdds cubes (coverRest primes steps uncovered cover) := by
  induction steps generalizing uncovered cover with
  | zero => exact adds
  | succ steps ih =>
      cases uncovered with
      | nil => exact adds
      | cons first rest =>
          have firstCoverable := coverable first List.mem_cons_self
          cases primes with
          | nil =>
              obtain ⟨_, isPrime, _⟩ := firstCoverable
              cases isPrime
          | cons prime others =>
              obtain ⟨cube, member, covered⟩ :=
                exists_mem_widest_covers firstCoverable
                  (List.mem_cons_self : first ∈ first :: rest)
              apply ih
              · obtain ⟨present, uncovered⟩ := left cube member
                exact adds.append_singleton present covered uncovered
              · intro other kept
                obtain ⟨otherMember, notBest⟩ := List.mem_filter.mp kept
                obtain ⟨present, uncovered⟩ := left other otherMember
                refine ⟨present, ?_⟩
                intro chosen isChosen
                rcases List.mem_append.mp isChosen with earlier | isBest
                · exact uncovered chosen earlier
                · rw [List.mem_singleton.mp isBest]
                  simpa using notBest
              · intro other kept
                exact coverable other (List.mem_filter.mp kept).1

section

variable {atoms : List Atom} {cubes : List Cube} (isOver : Over atoms cubes)

include isOver

/-- Repetitions in the list make no difference to its primes. -/
theorem mem_primes_distinct_iff {prime : Cube} :
    prime ∈ primes (distinct cubes) ↔ prime ∈ primes cubes := by
  rw [mem_primes_iff isOver, mem_primes_iff (over_distinct isOver),
    distinct_of_nodup (nodup_distinct cubes)]

theorem mem_essentials_primes_iff {prime : Cube} :
    prime ∈ essentials (primes (distinct cubes)) (distinct cubes) ↔
      IsEssential cubes prime := by
  rw [mem_essentials_iff]
  constructor
  · intro ⟨cube, member, only⟩
    have covering := @mem_and_covers_iff_of_filter _ _ _ only
    simp only [mem_primes_distinct_iff isOver] at covering
    refine ⟨(covering.mpr rfl).1, cube, mem_distinct.mp member, ?_⟩
    intro other isPrime
    rw [← covering, and_iff_right isPrime]
  · intro ⟨isPrime, cube, member, only⟩
    refine ⟨cube, mem_distinct.mpr member, ?_⟩
    apply List.perm_singleton.mp
    apply (List.perm_ext_iff_of_nodup ((nodup_primes _).filter _)
      (List.nodup_singleton prime)).mpr
    intro other
    rw [List.mem_filter, mem_primes_distinct_iff isOver, List.mem_singleton]
    constructor
    · intro ⟨otherPrime, covered⟩
      exact (only other otherPrime).mp covered
    · intro same
      subst same
      exact ⟨isPrime, (only other isPrime).mpr rfl⟩

theorem eachAdds_minimize : EachAdds cubes (minimize cubes) := by
  have listed : EachAdds (distinct cubes) (minimize cubes) := by
    apply eachAdds_coverRest
    · exact eachAdds_essentials _ _
    · intro cube kept
      obtain ⟨member, uncovered⟩ := List.mem_filter.mp kept
      refine ⟨member, ?_⟩
      simpa using uncovered
    · intro cube kept
      exact exists_mem_primes_covers isOver (List.mem_filter.mp kept).1
  intro before chosen after split
  obtain ⟨cube, member, added⟩ := listed before chosen after split
  exact ⟨cube, mem_distinct.mp member, added⟩

/-- For cubes over the same variables, with or without free ones, the search for
a cover comes to an end without a fault.  It finds primes that match the
assignments that the cubes match and no others, the essential ones first, and
each of them covers a cube that no earlier one covers. -/
theorem minimize_is_exact_essential_first_cover :
    FindsCover cubes (minimize cubes) ∧
    minimize cubes ⊆ primes cubes ∧
    (∀ point : Cube, point.atoms = atoms → IsPoint point.cells →
      ((∃ chosen ∈ minimize cubes, chosen.covers point = true) ↔
        ∃ cube ∈ cubes, cube.covers point = true)) ∧
    (∃ first rest, minimize cubes = first ++ rest ∧
      ∀ prime, prime ∈ first ↔ IsEssential cubes prime) ∧
    EachAdds cubes (minimize cubes) ∧
    (minimize cubes).Nodup ∧
    (minimize cubes).length ≤ (distinct cubes).length := by
  have adds := eachAdds_minimize isOver
  refine ⟨findsCover_minimize isOver, ?_, ?_, ?_, adds, adds.nodup,
    adds.length_le⟩
  · intro chosen member
    exact (mem_primes_distinct_iff isOver).mp
      (minimize_subset_primes cubes member)
  · intro point pointAtoms isPoint
    exact exists_mem_minimize_covers_point_iff isOver pointAtoms isPoint
  · obtain ⟨rest, split⟩ := prefix_coverRest (primes (distinct cubes)) _ _
      (essentials (primes (distinct cubes)) (distinct cubes))
    refine ⟨_, rest, split.symm, ?_⟩
    intro prime
    exact mem_essentials_primes_iff isOver

end

/-- Six points of a cycle and a cube with a free variable, one of the points
listed twice.  The cube with the free variable is essential and comes first;
three neighbouring pairs then cover the cycle. -/
theorem minimize_is_exact_essential_first_cover_cycle :
    let cube (first second third fourth : Mark) : Cube :=
      ⟨[(⟨"w"⟩, first), (⟨"x"⟩, second), (⟨"y"⟩, third), (⟨"z"⟩, fourth)]⟩
    let cubes : List Cube :=
      [cube .zero .zero .zero .zero, cube .zero .zero .zero .one,
        cube .zero .zero .one .zero, cube .zero .one .zero .one,
        cube .zero .one .one .zero, cube .zero .one .one .one,
        cube .one .one .zero .free, cube .zero .zero .zero .one]
    Over [⟨"w"⟩, ⟨"x"⟩, ⟨"y"⟩, ⟨"z"⟩] cubes ∧
      FindsCover cubes (minimize cubes) ∧
      IsEssential cubes (cube .one .one .zero .free) ∧
      EachAdds cubes (minimize cubes) ∧
      (minimize cubes).head? = some (cube .one .one .zero .free) ∧
      (minimize cubes).length = 4 ∧ (primes cubes).length = 7 := by
  intro cube cubes
  have isOver : Over [⟨"w"⟩, ⟨"x"⟩, ⟨"y"⟩, ⟨"z"⟩] cubes := by
    simp only [Over]
    decide
  obtain ⟨finds, _, _, _, adds, _⟩ :=
    minimize_is_exact_essential_first_cover isOver
  refine ⟨isOver, finds, ?_, adds, by decide +kernel, by decide +kernel,
    by decide +kernel⟩
  exact (mem_essentials_primes_iff isOver).mp (by decide +kernel)

end Cube

end Possibilistic
