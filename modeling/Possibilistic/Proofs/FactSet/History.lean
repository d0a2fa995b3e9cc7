import Possibilistic.FactSet.Basic
import Possibilistic.Proofs.Degree.Arithmetic
import Possibilistic.Proofs.FuzzySet.Equality

/-!
# Fact sets as histories

A fact set that was made by telling and untelling facts is a summary of these
calls.  Its members are the facts that were told at a positive degree when they
were last spoken of, and they stand in the order in which they became present,
where telling a present fact again keeps its place and a fact that comes back
goes to the end.  The invariant is carried through one change at a time.
-/

namespace Possibilistic

theorem ArrivalMap.keys_insertEntry_of_mem {κ ν : Type} [DecidableEq κ]
    {key : κ} {value : ν} {entries : List (κ × ν)}
    (present : key ∈ entries.map Prod.fst) :
    (insertEntry key value entries).map Prod.fst = entries.map Prod.fst := by
  induction entries with
  | nil => cases present
  | cons entry rest ih =>
      obtain ⟨other, old⟩ := entry
      rw [insertEntry]
      split
      · rfl
      · rename_i different
        have inRest : key ∈ rest.map Prod.fst :=
          (List.mem_cons.mp present).resolve_left (Ne.symm different)
        rw [List.map_cons, List.map_cons, ih inRest]

namespace FuzzySet

variable {ε : Type} [DecidableEq ε] {set : FuzzySet ε} {element : ε}
  {degree : Degree}

theorem mem_items_remove_iff {item : ε × Degree} :
    item ∈ (set.remove element).items ↔
      item.1 ≠ element ∧ item ∈ set.items := by
  change item ∈ set.members.entries.filter (fun entry => entry.1 ≠ element) ↔ _
  rw [List.mem_filter, decide_eq_true_iff]
  exact and_comm

theorem mem_items_assign_iff (nonzero : degree.isZero = false)
    {item : ε × Degree} :
    item ∈ (set.assign element degree).items ↔
      item = (element, degree) ∨ item.1 ≠ element ∧ item ∈ set.items := by
  obtain ⟨other, known⟩ := item
  have listed : ∀ map : ArrivalMap ε Degree,
      (other, known) ∈ map.entries ↔ map.get? other = some known := fun map =>
    (ArrivalMap.lookUp?_eq_some_iff map.nodup).symm
  rw [assign, dif_neg (by simp [nonzero])]
  change (other, known) ∈ (set.members.insert element degree).entries ↔
    _ ∨ _ ∧ (other, known) ∈ set.members.entries
  rw [listed, listed, ArrivalMap.get?_insert]
  by_cases same : other = element
  · simp [same, eq_comm]
  · simp [same]

theorem elements_remove_sublist :
    ((set.remove element).items.map Prod.fst).Sublist
      (set.items.map Prod.fst) :=
  List.filter_sublist.map Prod.fst

theorem elements_assign_of_mem (nonzero : degree.isZero = false)
    (present : element ∈ set.items.map Prod.fst) :
    (set.assign element degree).items.map Prod.fst =
      set.items.map Prod.fst := by
  rw [assign, dif_neg (by simp [nonzero])]
  exact ArrivalMap.keys_insertEntry_of_mem present

end FuzzySet

namespace FactSet

/-- A call that changes a fact set, with the data that it is offered. -/
inductive Call where
  | tell (fact degree : Datum)
  | untell (fact : Datum)

/-- What a call with accepted data does. -/
inductive Change where
  | tell (fact : Formula) (degree : Degree)
  | untell (fact : Formula)
deriving DecidableEq

/-- The offered data are accepted as those of the change. -/
inductive Call.Asks : Call → Change → Prop where
  | tell {offered given : Datum} {fact : Formula} {degree : Degree} :
      offered.asFact = .ok fact → given.asDegree = .ok degree →
        Asks (.tell offered given) (.tell fact degree)
  | untell {offered : Datum} {fact : Formula} :
      offered.asFact = .ok fact → Asks (.untell offered) (.untell fact)

def perform (facts : FactSet) : Call → Except Fault FactSet
  | .tell fact degree => facts.tellOffered fact degree
  | .untell fact => do pure (facts.untell (← fact.asFact))

/-- Performs calls one after the other. -/
def performAll (facts : FactSet) : List Call → Except Fault FactSet
  | [] => .ok facts
  | call :: rest => do performAll (← facts.perform call) rest

def apply (facts : FactSet) : Change → FactSet
  | .tell fact degree => facts.tell fact degree
  | .untell fact => facts.untell fact

theorem perform_of_asks {call : Call} {change : Change}
    (asks : call.Asks change) (facts : FactSet) :
    facts.perform call = .ok (facts.apply change) := by
  cases asks with
  | tell isFact isDegree =>
      simp only [perform, tellOffered, isFact, isDegree]
      rfl
  | untell isFact =>
      simp only [perform, isFact]
      rfl

theorem performAll_of_asks {calls : List Call} {changes : List Change}
    (valid : List.Forall₂ Call.Asks calls changes) (facts : FactSet) :
    facts.performAll calls = .ok (changes.foldl apply facts) := by
  induction valid generalizing facts with
  | nil => rfl
  | cons asks _ ih =>
      rw [performAll, perform_of_asks asks]
      exact ih _

namespace Change

/-- The fact that a change is about. -/
def fact : Change → Formula
  | .tell fact _ => fact
  | .untell fact => fact

/-- The last change that is about a fact. -/
def lastAbout? (fact : Formula) (changes : List Change) : Option Change :=
  (changes.filter fun change => change.fact = fact).getLast?

/-- The last change about the fact told it at the degree, which is not zero. -/
def Keeps (changes : List Change) (fact : Formula) (degree : Degree) : Prop :=
  lastAbout? fact changes = some (.tell fact degree) ∧ degree.isZero = false

def Present (changes : List Change) (fact : Formula) : Prop :=
  ∃ degree, Keeps changes fact degree

/-- The numbered change brought the fact from absent to present, and it has been
present since. -/
structure Arrived (changes : List Change) (fact : Formula) (index : Nat) :
    Prop where
  inRange : index < changes.length
  absentBefore : ¬Present (changes.take index) fact
  presentSince : ∀ later, index < later → later ≤ changes.length →
    Present (changes.take later) fact

/-- All the facts are present, and each arrived before the next ones. -/
structure InOrderOfArrival (changes : List Change) (facts : List Formula) :
    Prop where
  arrived : ∀ fact ∈ facts, ∃ index, Arrived changes fact index
  ordered : facts.Pairwise fun earlier later => ∀ index next,
    Arrived changes earlier index → Arrived changes later next → index < next

variable {changes : List Change} {change : Change}

theorem lastAbout?_append (fact : Formula) :
    lastAbout? fact (changes ++ [change]) =
      if change.fact = fact then some change
      else lastAbout? fact changes := by
  rw [lastAbout?, List.filter_append]
  split
  · rename_i same
    simp [same]
  · rename_i different
    simp [different, lastAbout?]

theorem keeps_append_iff {fact : Formula} {degree : Degree} :
    Keeps (changes ++ [change]) fact degree ↔
      if change.fact = fact then
        change = .tell fact degree ∧ degree.isZero = false
      else Keeps changes fact degree := by
  rw [Keeps, lastAbout?_append]
  split
  · rw [Option.some.injEq]
  · exact Iff.rfl

theorem Arrived.present {fact : Formula} {index : Nat}
    (arrived : Arrived changes fact index) : Present changes fact := by
  have now := arrived.presentSince changes.length arrived.inRange
    (Nat.le_refl _)
  rwa [List.take_length] at now

/-- A change that leaves a fact present does not touch its arrival. -/
theorem arrived_append_iff {fact : Formula} (before : Present changes fact)
    (after : Present (changes ++ [change]) fact) {index : Nat} :
    Arrived (changes ++ [change]) fact index ↔ Arrived changes fact index := by
  have size : (changes ++ [change]).length = changes.length + 1 :=
    List.length_append
  constructor
  · intro arrived
    have below : index < changes.length := by
      have inRange := arrived.inRange
      rcases Nat.lt_or_eq_of_le (Nat.lt_succ_iff.mp (size ▸ inRange)) with
        below | last
      · exact below
      · have absent := arrived.absentBefore
        rw [last, List.take_left] at absent
        exact absurd before absent
    refine ⟨below, ?_, ?_⟩
    · have absent := arrived.absentBefore
      rwa [List.take_append_of_le_length (Nat.le_of_lt below)] at absent
    · intro later behind inRange
      have present := arrived.presentSince later behind (by omega)
      rwa [List.take_append_of_le_length inRange] at present
  · intro arrived
    refine ⟨by have := arrived.inRange; omega, ?_, ?_⟩
    · rw [List.take_append_of_le_length (Nat.le_of_lt arrived.inRange)]
      exact arrived.absentBefore
    · intro later behind inRange
      by_cases old : later ≤ changes.length
      · rw [List.take_append_of_le_length old]
        exact arrived.presentSince later behind old
      · rw [List.take_of_length_le (by omega)]
        exact after

/-- A fact that a change makes present arrives with it. -/
theorem arrived_append_of_absent {fact : Formula}
    (absent : ¬Present changes fact)
    (after : Present (changes ++ [change]) fact) {index : Nat} :
    Arrived (changes ++ [change]) fact index ↔ index = changes.length := by
  have size : (changes ++ [change]).length = changes.length + 1 :=
    List.length_append
  constructor
  · intro arrived
    apply Nat.le_antisymm
    · have := arrived.inRange
      omega
    · apply Nat.le_of_not_lt
      intro below
      have present := arrived.presentSince changes.length below (by omega)
      rw [List.take_left] at present
      exact absent present
  · rintro rfl
    refine ⟨by omega, ?_, ?_⟩
    · rw [List.take_left]
      exact absent
    · intro later behind _
      rw [List.take_of_length_le (by omega)]
      exact after

namespace InOrderOfArrival

variable {facts : List Formula} (inOrder : InOrderOfArrival changes facts)

include inOrder

/-- Facts that stay present stay in order. -/
theorem kept {others : List Formula} (sublist : others.Sublist facts)
    (stay : ∀ fact ∈ others, Present (changes ++ [change]) fact) :
    InOrderOfArrival (changes ++ [change]) others := by
  have unchanged : ∀ fact ∈ others, ∀ index,
      Arrived (changes ++ [change]) fact index ↔
        Arrived changes fact index := by
    intro fact member index
    obtain ⟨_, arrived⟩ := inOrder.arrived fact (sublist.subset member)
    exact arrived_append_iff arrived.present (stay fact member)
  constructor
  · intro fact member
    obtain ⟨index, arrived⟩ := inOrder.arrived fact (sublist.subset member)
    exact ⟨index, (unchanged fact member index).mpr arrived⟩
  · apply (inOrder.ordered.sublist sublist).imp_of_mem
    intro earlier later isEarlier isLater below index next
    rw [unchanged earlier isEarlier, unchanged later isLater]
    exact below index next

/-- A fact that arrives goes to the end. -/
theorem joined {fact : Formula} (absent : ¬Present changes fact)
    (after : Present (changes ++ [change]) fact)
    (stay : ∀ other ∈ facts, Present (changes ++ [change]) other) :
    InOrderOfArrival (changes ++ [change]) (facts ++ [fact]) := by
  have earlier := inOrder.kept (List.Sublist.refl facts) stay
  constructor
  · intro other member
    rcases List.mem_append.mp member with isEarlier | isLast
    · exact earlier.arrived other isEarlier
    · rw [List.mem_singleton.mp isLast]
      exact ⟨_, (arrived_append_of_absent absent after).mpr rfl⟩
  · apply List.pairwise_append.mpr
    refine ⟨earlier.ordered, List.pairwise_singleton _ _, ?_⟩
    intro other isEarlier last isLast index next otherArrived lastArrived
    rw [List.mem_singleton.mp isLast,
      arrived_append_of_absent absent after] at lastArrived
    obtain ⟨_, before⟩ := inOrder.arrived other isEarlier
    rw [arrived_append_iff before.present (stay other isEarlier)]
      at otherArrived
    rw [lastArrived]
    exact otherArrived.inRange

end InOrderOfArrival

end Change

/-- The members are the facts that the changes keep. -/
def Lists (changes : List Change) (facts : FactSet) : Prop :=
  ∀ fact degree,
    (fact, degree) ∈ facts.items ↔ Change.Keeps changes fact degree

theorem Lists.mem_iff_present {changes : List Change} {facts : FactSet}
    (lists : Lists changes facts) {fact : Formula} :
    fact ∈ facts.items.map Prod.fst ↔ Change.Present changes fact := by
  constructor
  · intro member
    obtain ⟨⟨other, degree⟩, present, same⟩ := List.mem_map.mp member
    have same : other = fact := same
    exact ⟨degree, (lists fact degree).mp (same ▸ present)⟩
  · intro ⟨degree, keeps⟩
    exact List.mem_map_of_mem ((lists fact degree).mpr keeps)

/-- The members are what the changes keep, in the order of arrival. -/
structure Records (changes : List Change) (facts : FactSet) : Prop where
  lists : Lists changes facts
  inOrder : Change.InOrderOfArrival changes (facts.items.map Prod.fst)

namespace Records

variable {changes : List Change} {facts : FactSet}

theorem empty : Records [] FactSet.empty := by
  refine ⟨?_, nofun, List.Pairwise.nil⟩
  intro fact degree
  exact iff_of_false List.not_mem_nil (fun keeps => nomatch keeps.1)

/-- A change that does not keep its fact takes it out. -/
theorem remove (records : Records changes facts) {change : Change}
    (vanishes : ∀ degree, change = .tell change.fact degree →
      degree.isZero = true) :
    Records (changes ++ [change]) (FuzzySet.remove facts change.fact) := by
  have lists : Lists (changes ++ [change])
      (FuzzySet.remove facts change.fact) := by
    intro fact degree
    rw [FuzzySet.mem_items_remove_iff, records.lists, Change.keeps_append_iff]
    split
    · rename_i same
      subst same
      apply iff_of_false
      · exact fun known => known.1 rfl
      · intro ⟨told, nonzero⟩
        rw [vanishes degree told] at nonzero
        cases nonzero
    · rename_i different
      exact and_iff_right (Ne.symm different)
  exact ⟨lists, records.inOrder.kept FuzzySet.elements_remove_sublist
    fun _ member => lists.mem_iff_present.mp member⟩

/-- A fact that is told at a positive degree keeps its place or goes to the
end. -/
theorem assign (records : Records changes facts) (fact : Formula)
    {degree : Degree} (nonzero : degree.isZero = false) :
    Records (changes ++ [.tell fact degree])
      (FuzzySet.assign facts fact degree) := by
  have lists : Lists (changes ++ [.tell fact degree])
      (FuzzySet.assign facts fact degree) := by
    intro other known
    rw [FuzzySet.mem_items_assign_iff nonzero, records.lists,
      Change.keeps_append_iff, Prod.mk.injEq]
    by_cases same : fact = other
    · subst same
      rw [Change.fact, if_pos rfl, Change.tell.injEq]
      constructor
      · rintro (⟨_, rfl⟩ | ⟨different, _⟩)
        · exact ⟨⟨rfl, rfl⟩, nonzero⟩
        · exact absurd rfl different
      · rintro ⟨⟨_, rfl⟩, _⟩
        exact .inl ⟨rfl, rfl⟩
    · simp [Change.fact, same, Ne.symm same]
  refine ⟨lists, ?_⟩
  by_cases present : fact ∈ facts.items.map Prod.fst
  · have sameFacts := FuzzySet.elements_assign_of_mem nonzero present
    apply records.inOrder.kept (sameFacts ▸ List.Sublist.refl _)
    exact fun _ member => lists.mem_iff_present.mp member
  · have moreFacts : (FuzzySet.assign facts fact degree).items.map Prod.fst =
        facts.items.map Prod.fst ++ [fact] := by
      rw [FuzzySet.items_assign_of_not_mem nonzero present, List.map_append]
      rfl
    have after : ∀ other ∈ facts.items.map Prod.fst ++ [fact],
        Change.Present (changes ++ [.tell fact degree]) other := by
      intro other member
      rw [← moreFacts] at member
      exact lists.mem_iff_present.mp member
    rw [moreFacts]
    apply records.inOrder.joined
    · exact fun before => present (records.lists.mem_iff_present.mpr before)
    · exact after fact (List.mem_append_right _ (List.mem_singleton_self _))
    · exact fun other member => after other (List.mem_append_left _ member)

theorem apply (records : Records changes facts) (change : Change) :
    Records (changes ++ [change]) (facts.apply change) := by
  cases change with
  | untell fact =>
      exact @remove _ _ records (.untell fact) fun _ told => nomatch told
  | tell fact degree =>
      by_cases vanishing : degree.isZero = true
      · rw [FactSet.apply, FactSet.tell, FuzzySet.assign, dif_pos vanishing]
        apply @remove _ _ records (.tell fact degree)
        intro known same
        rw [← (Change.tell.inj same).2]
        exact vanishing
      · exact records.assign fact (Bool.eq_false_iff.mpr vanishing)

theorem run (changes : List Change) :
    Records changes (changes.foldl FactSet.apply FactSet.empty) := by
  induction changes using List.reverseRecOn with
  | nil => exact empty
  | append_singleton changes change ih =>
      rw [List.foldl_append]
      exact ih.apply change

end Records

/-- Calls with valid data never fail, and what they make of an empty set is a
record of the calls: the facts that the last call about them told at a degree
that is not zero, each once with that degree, in the order in which they became
present.  The levels are these degrees, ascending, and a cut has the facts that
reach it, in the same order and fully. -/
theorem history_is_recorded {calls : List Call} {changes : List Change}
    (valid : List.Forall₂ Call.Asks calls changes) :
    ∃ facts, FactSet.empty.performAll calls = .ok facts ∧
      Lists changes facts ∧ (facts.items.map Prod.fst).Nodup ∧
      Change.InOrderOfArrival changes (facts.items.map Prod.fst) ∧
      facts.levels.Pairwise (· < ·) ∧
      (∀ level ∈ facts.levels, level.isZero = false) ∧
      (∀ level, level ∈ facts.levels ↔
        ∃ fact, Change.Keeps changes fact level) ∧
      ∀ level : Degree, (facts.cut level).items =
        (facts.items.filter fun item => level ≤ item.2).map fun item =>
          (item.1, Degree.one) := by
  have records := Records.run changes
  refine ⟨_, performAll_of_asks valid FactSet.empty, records.lists,
    ArrivalMap.nodup _, records.inOrder, Degree.pairwise_levels _, ?_, ?_,
    FuzzySet.items_cut _⟩
  · intro level member
    obtain ⟨fact, present⟩ := FuzzySet.mem_levels_iff.mp member
    exact ((records.lists fact level).mp present).2
  · intro level
    rw [FuzzySet.mem_levels_iff]
    exact exists_congr fun fact => records.lists fact level

/-- The sun was told first and taken back with a negative zero, so it stands
behind the rain when it comes back, while the rain keeps its place when it is
told again. -/
theorem history_is_recorded_weather :
    let sun : Formula := .atom ⟨"sun"⟩
    let rain : Formula := .atom ⟨"rain"⟩
    let halfway : Datum := .number Degree.half.toBinary64
    let calls : List Call :=
      [.tell (.text "sun") (.truth true), .tell (.formula rain) halfway,
        .tell (.atom ⟨"sun"⟩) (.number (Degree.signedZero true).toBinary64),
        .tell (.fact sun) halfway, .tell (.text "rain") (.truth true),
        .untell (.text "wind")]
    let changes : List Change :=
      [.tell sun Degree.one, .tell rain Degree.half,
        .tell sun (Degree.signedZero true), .tell sun Degree.half,
        .tell rain Degree.one, .untell (.atom ⟨"wind"⟩)]
    List.Forall₂ Call.Asks calls changes ∧
      ∃ facts, FactSet.empty.performAll calls = .ok facts ∧
        Change.InOrderOfArrival changes (facts.items.map Prod.fst) ∧
        facts.items = [(rain, Degree.one), (sun, Degree.half)] ∧
        facts.levels = [Degree.half, Degree.one] ∧
        (facts.cut Degree.one).items = [(rain, Degree.one)] := by
  intro sun rain halfway calls changes
  have isHalf : halfway.asDegree = .ok Degree.half := by
    rw [Datum.asDegree, Datum.asDegreeOf, Degree.ofBinary64?_toBinary64]
  have valid : List.Forall₂ Call.Asks calls changes :=
    .cons (.tell rfl rfl) (.cons (.tell rfl isHalf) (.cons (.tell rfl rfl)
      (.cons (.tell rfl isHalf) (.cons (.tell rfl rfl)
        (.cons (.untell rfl) .nil)))))
  obtain ⟨facts, performed, _, _, inOrder, _⟩ := history_is_recorded valid
  have isRun : facts = changes.foldl apply FactSet.empty :=
    Except.ok.inj (performed.symm.trans (performAll_of_asks valid _))
  refine ⟨valid, facts, performed, inOrder, ?_⟩
  rw [isRun]
  decide +kernel

end FactSet

end Possibilistic
