import Deferred.Ambiguous.Basic
import Mathlib.Tactic.Choose
import Mathlib.Data.List.Basic
import Mathlib.Data.Nat.Init

/-! The ways in which a grammar can read the beginning of a text. Each is a tree of choices, and the trees
are ordered as a search finds them that tries the choices from left to right and follows each as deep as it
goes. Where no repetition stands still, a finite list of readings has all of them in this order. -/

namespace Deferred.Ambiguous

variable {α β γ : Type}

inductive Derivation where
  | leaf
  | left (chosen : Derivation)
  | right (chosen : Derivation)
  | both (first second : Derivation)
  | more (first others : Derivation)
  | stop
deriving DecidableEq, Repr

/-- The order of a search from left to right. What comes first in a text decides first; one alternative
comes before the other, and going on comes before stopping. -/
inductive Derivation.Before : Derivation → Derivation → Prop where
  | left {chosen chosen' : Derivation} (before : chosen.Before chosen') :
      Before (.left chosen) (.left chosen')
  | right {chosen chosen' : Derivation} (before : chosen.Before chosen') :
      Before (.right chosen) (.right chosen')
  | left_right (chosen chosen' : Derivation) : Before (.left chosen) (.right chosen')
  | both_first {first first' : Derivation} (before : first.Before first') (second second' : Derivation) :
      Before (.both first second) (.both first' second')
  | both_second (first : Derivation) {second second' : Derivation} (before : second.Before second') :
      Before (.both first second) (.both first second')
  | more_first {first first' : Derivation} (before : first.Before first') (others others' : Derivation) :
      Before (.more first others) (.more first' others')
  | more_others (first : Derivation) {others others' : Derivation} (before : others.Before others') :
      Before (.more first others) (.more first others')
  | more_stop (first others : Derivation) : Before (.more first others) .stop

/-- Nothing comes before itself, so what is ordered this way holds nothing twice. -/
theorem Derivation.Before.ne {first second : Derivation} (before : first.Before second) :
    first ≠ second := by
  induction before with
  | left _ ih | right _ ih => simpa using ih
  | left_right | more_stop => simp
  | both_first _ _ _ ih | more_first _ _ _ ih => simp [ih]
  | both_second _ _ ih | more_others _ _ ih => simp [ih]

inductive Repeats (Item : Input → Derivation → α → Input → Prop) :
    Input → Derivation → List α → Input → Prop where
  | more {input middle rest : Input} {first others : Derivation} {value : α} {values : List α}
      (item : Item input first value middle) (repeats : Repeats Item middle others values rest) :
      Repeats Item input (.more first others) (value :: values) rest
  | stop (input : Input) : Repeats Item input .stop [] input

def Derives : {α : Type} → Ambiguous α → Input → Derivation → α → Input → Prop
  | _, .zero, _, _, _, _ => False
  | _, .item, input, derivation, c, rest => derivation = .leaf ∧
      input.rest = c :: rest.rest ∧ rest.source = input.source ∧ rest.pos = input.pos + 1
  | _, .pure value, input, derivation, found, rest =>
      derivation = .leaf ∧ found = value ∧ rest = input
  | _, .plus first second, input, derivation, value, rest =>
      (∃ chosen, derivation = .left chosen ∧ first.Derives input chosen value rest) ∨
        ∃ chosen, derivation = .right chosen ∧ second.Derives input chosen value rest
  | _, .bind first next, input, derivation, value, rest => ∃ earlier later middle between,
      derivation = .both earlier later ∧ first.Derives input earlier middle between ∧
        (next middle).Derives between later value rest
  | _, .map f grammar, input, derivation, value, rest => ∃ found,
      value = f found ∧ grammar.Derives input derivation found rest
  | _, .many repeated, input, derivation, values, rest =>
      Repeats repeated.Derives input derivation values rest

/-- The readings of a repetition, when `Item` tells the readings of one of its items: for each of these
the readings of what more follows, and the empty one last. -/
inductive ListsMany (Item : Input → List (α × Input) → Prop) :
    Input → List (List α × Input) → Prop where
  | intro {input : Input} {readings : List (α × Input)} {follow : α × Input → List (List α × Input)}
      (item : Item input readings)
      (lists : ∀ reading ∈ readings, ListsMany Item reading.2 (follow reading)) :
      ListsMany Item input
        ((readings.flatMap fun reading =>
          (follow reading).map fun more => (reading.1 :: more.1, more.2)) ++ [([], input)])

def Lists : {α : Type} → Ambiguous α → Input → List (α × Input) → Prop
  | _, .zero, _, readings => readings = []
  | _, .item, input, readings => readings = input.advance.toList
  | _, .pure value, input, readings => readings = [(value, input)]
  | _, .plus first second, input, readings => ∃ left right,
      first.Lists input left ∧ second.Lists input right ∧ readings = left ++ right
  | _, .bind first next, input, readings => ∃ firsts follow, first.Lists input firsts ∧
      (∀ reading ∈ firsts, (next reading.1).Lists reading.2 (follow reading)) ∧
        readings = firsts.flatMap follow
  | _, .map f grammar, input, readings => ∃ found, grammar.Lists input found ∧
      readings = found.map fun reading => (f reading.1, reading.2)
  | _, .many repeated, input, readings => ListsMany repeated.Lists input readings

structure Enumerates (Reads : Input → Derivation → α → Input → Prop) (input : Input)
    (found : List (Derivation × α × Input)) : Prop where
  sorted : found.Pairwise fun earlier later => earlier.1.Before later.1
  mem_iff : ∀ derivation value rest,
    (derivation, value, rest) ∈ found ↔ Reads input derivation value rest

namespace Enumerates

theorem nodup {Reads : Input → Derivation → α → Input → Prop} {input : Input}
    {found : List (Derivation × α × Input)} (enumerates : Enumerates Reads input found) :
    (found.map Prod.fst).Nodup :=
  List.pairwise_map.mpr (enumerates.sorted.imp fun before => before.ne)

theorem zero (input : Input) : Enumerates (Derives (.zero : Ambiguous α)) input [] where
  sorted := .nil
  mem_iff _ _ _ := ⟨fun member => absurd member List.not_mem_nil, False.elim⟩

theorem item (input : Input) : Enumerates (Derives .item) input
    (input.advance.toList.map fun reading => (.leaf, reading)) where
  sorted := by
    cases input.advance with
    | none => exact .nil
    | some reading => exact List.pairwise_singleton ..
  mem_iff derivation value rest := by
    cases moved : input.advance with
    | none =>
      refine ⟨fun member => absurd member List.not_mem_nil, fun ⟨_, stands, _⟩ => ?_⟩
      rw [Input.advance_eq_none_iff.mp moved] at stands
      exact absurd stands (by simp)
    | some reading =>
      obtain ⟨c, next⟩ := reading
      obtain ⟨stands, source, pos, -⟩ := Input.advance_eq_some moved
      rw [Option.toList_some, List.map_singleton, List.mem_singleton]
      constructor
      · rintro ⟨⟩
        exact ⟨rfl, stands, source, pos⟩
      · rintro ⟨rfl, stands', source', pos'⟩
        have same : rest = next := Input.ext_pos (source'.trans source.symm) (pos'.trans pos.symm)
        rw [stands] at stands'
        rw [same, (List.cons.inj stands').1]

theorem pure (value : α) (input : Input) :
    Enumerates (Derives (.pure value)) input [(.leaf, value, input)] where
  sorted := List.pairwise_singleton ..
  mem_iff derivation found rest := by
    rw [List.mem_singleton, Prod.mk.injEq, Prod.mk.injEq]
    rfl

theorem plus {first second : Ambiguous α} {input : Input} {found found' : List (Derivation × α × Input)}
    (enumerates : Enumerates first.Derives input found)
    (enumerates' : Enumerates second.Derives input found') :
    Enumerates (first.plus second).Derives input
      ((found.map fun reading => (.left reading.1, reading.2)) ++
        found'.map fun reading => (.right reading.1, reading.2)) where
  sorted := by
    refine List.pairwise_append.mpr ⟨?_, ?_, ?_⟩
    · exact List.pairwise_map.mpr (enumerates.sorted.imp .left)
    · exact List.pairwise_map.mpr (enumerates'.sorted.imp .right)
    · intro earlier member later member'
      obtain ⟨reading, -, rfl⟩ := List.mem_map.mp member
      obtain ⟨reading', -, rfl⟩ := List.mem_map.mp member'
      exact .left_right ..
  mem_iff derivation value rest := by
    rw [List.mem_append, List.mem_map, List.mem_map]
    constructor
    · rintro (⟨⟨chosen, reading⟩, member, ⟨⟩⟩ | ⟨⟨chosen, reading⟩, member, ⟨⟩⟩)
      · exact .inl ⟨chosen, rfl, (enumerates.mem_iff ..).mp member⟩
      · exact .inr ⟨chosen, rfl, (enumerates'.mem_iff ..).mp member⟩
    · rintro (⟨chosen, rfl, derives⟩ | ⟨chosen, rfl, derives⟩)
      · exact .inl ⟨_, (enumerates.mem_iff ..).mpr derives, rfl⟩
      · exact .inr ⟨_, (enumerates'.mem_iff ..).mpr derives, rfl⟩

theorem map (f : α → β) {grammar : Ambiguous α} {input : Input} {found : List (Derivation × α × Input)}
    (enumerates : Enumerates grammar.Derives input found) : Enumerates (grammar.map f).Derives input
      (found.map fun reading => (reading.1, f reading.2.1, reading.2.2)) where
  sorted := List.pairwise_map.mpr enumerates.sorted
  mem_iff derivation value rest := by
    rw [List.mem_map]
    constructor
    · rintro ⟨⟨derivation, value, rest⟩, member, ⟨⟩⟩
      exact ⟨value, rfl, (enumerates.mem_iff ..).mp member⟩
    · rintro ⟨value, rfl, derives⟩
      exact ⟨_, (enumerates.mem_iff ..).mpr derives, rfl⟩

def followed (join : Derivation → Derivation → Derivation) (build : α → β → γ)
    (found : List (Derivation × α × Input)) (follow : α × Input → List (Derivation × β × Input)) :
    List (Derivation × γ × Input) :=
  found.flatMap fun reading => (follow reading.2).map fun next =>
    (join reading.1 next.1, build reading.2.1 next.2.1, next.2.2)

theorem sorted_followed {join : Derivation → Derivation → Derivation} (build : α → β → γ)
    {found : List (Derivation × α × Input)} {follow : α × Input → List (Derivation × β × Input)}
    (join_first : ∀ first first' second second', Derivation.Before first first' →
      (join first second).Before (join first' second'))
    (join_second : ∀ first second second', Derivation.Before second second' →
      (join first second).Before (join first second'))
    (sorted : found.Pairwise fun earlier later => earlier.1.Before later.1)
    (sorted' : ∀ reading ∈ found,
      (follow reading.2).Pairwise fun earlier later => earlier.1.Before later.1) :
    (followed join build found follow).Pairwise fun earlier later => earlier.1.Before later.1 := by
  refine List.pairwise_flatMap.mpr ⟨fun reading member => ?_, sorted.imp fun before => ?_⟩
  · exact List.pairwise_map.mpr ((sorted' reading member).imp (join_second _ _ _))
  · intro earlier member later member'
    obtain ⟨next, -, rfl⟩ := List.mem_map.mp member
    obtain ⟨next', -, rfl⟩ := List.mem_map.mp member'
    exact join_first _ _ _ _ before

theorem mem_followed {join : Derivation → Derivation → Derivation} {build : α → β → γ}
    {found : List (Derivation × α × Input)} {follow : α × Input → List (Derivation × β × Input)}
    {reading : Derivation × γ × Input} : reading ∈ followed join build found follow ↔
      ∃ derivation value middle derivation' value' rest, (derivation, value, middle) ∈ found ∧
        (derivation', value', rest) ∈ follow (value, middle) ∧
          reading = (join derivation derivation', build value value', rest) := by
  rw [followed, List.mem_flatMap]
  constructor
  · rintro ⟨⟨derivation, value, middle⟩, member, member'⟩
    obtain ⟨⟨derivation', value', rest⟩, next, rfl⟩ := List.mem_map.mp member'
    exact ⟨derivation, value, middle, derivation', value', rest, member, next, rfl⟩
  · rintro ⟨derivation, value, middle, derivation', value', rest, member, member', rfl⟩
    exact ⟨_, member, List.mem_map.mpr ⟨_, member', rfl⟩⟩

theorem map_snd_followed {join : Derivation → Derivation → Derivation} {build : α → β → γ}
    {found : List (Derivation × α × Input)} {follow : α × Input → List (Derivation × β × Input)} :
    (followed join build found follow).map Prod.snd =
      (found.map Prod.snd).flatMap fun reading => ((follow reading).map Prod.snd).map fun next =>
        (build reading.1 next.1, next.2) := by
  simp only [followed, List.map_flatMap, List.flatMap_map, List.map_map]
  rfl

theorem bind {first : Ambiguous α} {next : α → Ambiguous β} {input : Input}
    {found : List (Derivation × α × Input)} {follow : α × Input → List (Derivation × β × Input)}
    (enumerates : Enumerates first.Derives input found)
    (enumerates' : ∀ reading ∈ found.map Prod.snd,
      Enumerates (next reading.1).Derives reading.2 (follow reading)) :
    Enumerates (first.bind next).Derives input (followed .both (fun _ value => value) found follow) where
  sorted := sorted_followed _ (fun _ _ second second' before => .both_first before second second')
    (fun first _ _ before => .both_second first before) enumerates.sorted
    fun _ member => (enumerates' _ (List.mem_map_of_mem member)).sorted
  mem_iff derivation value rest := by
    rw [mem_followed]
    constructor
    · rintro ⟨earlier, middle, between, later, value, rest, member, member', ⟨⟩⟩
      exact ⟨earlier, later, middle, between, rfl, (enumerates.mem_iff ..).mp member,
        ((enumerates' _ (List.mem_map_of_mem member)).mem_iff ..).mp member'⟩
    · rintro ⟨earlier, later, middle, between, rfl, derives, derives'⟩
      have member := (enumerates.mem_iff ..).mpr derives
      exact ⟨_, _, _, _, _, _, member,
        ((enumerates' _ (List.mem_map_of_mem member)).mem_iff ..).mpr derives', rfl⟩

theorem repeats {Item : Input → Derivation → α → Input → Prop} {input : Input}
    {found : List (Derivation × α × Input)} {follow : α × Input → List (Derivation × List α × Input)}
    (enumerates : Enumerates Item input found)
    (enumerates' : ∀ reading ∈ found.map Prod.snd,
      Enumerates (Repeats Item) reading.2 (follow reading)) :
    Enumerates (Repeats Item) input
      (followed .more (fun value values => value :: values) found follow ++ [(.stop, [], input)]) where
  sorted := by
    refine List.pairwise_append.mpr ⟨?_, List.pairwise_singleton .., ?_⟩
    · exact sorted_followed _ (fun _ _ others others' before => .more_first before others others')
        (fun first _ _ before => .more_others first before) enumerates.sorted
        fun _ member => (enumerates' _ (List.mem_map_of_mem member)).sorted
    · intro earlier member later member'
      obtain ⟨derivation, value, middle, derivation', value', rest, -, -, rfl⟩ := mem_followed.mp member
      rw [List.mem_singleton.mp member']
      exact .more_stop ..
  mem_iff derivation values rest := by
    rw [List.mem_append, mem_followed, List.mem_singleton]
    constructor
    · rintro (⟨first, value, middle, others, values, rest, member, member', ⟨⟩⟩ | same)
      · exact .more ((enumerates.mem_iff ..).mp member)
          (((enumerates' _ (List.mem_map_of_mem member)).mem_iff ..).mp member')
      · obtain ⟨rfl, rfl, rfl⟩ := same
        exact .stop _
    · intro repeats
      cases repeats with
      | more item repeats =>
        have member := (enumerates.mem_iff ..).mpr item
        exact .inl ⟨_, _, _, _, _, _, member,
          ((enumerates' _ (List.mem_map_of_mem member)).mem_iff ..).mpr repeats, rfl⟩
      | stop => exact .inr rfl

end Enumerates

/-- The readings of a repetition are those of its derivations if the same is true of its items. -/
theorem ListsMany.enumerated {Item : Input → List (α × Input) → Prop}
    {Reads : Input → Derivation → α → Input → Prop}
    (each : ∀ {input readings}, Item input readings →
      ∃ found, Enumerates Reads input found ∧ found.map Prod.snd = readings)
    {input : Input} {readings : List (List α × Input)} (lists : ListsMany Item input readings) :
    ∃ found, Enumerates (Repeats Reads) input found ∧ found.map Prod.snd = readings := by
  induction lists with
  | intro item lists ih =>
    obtain ⟨found, enumerates, rfl⟩ := each item
    choose! follow enumerates' same using ih
    refine ⟨_, enumerates.repeats enumerates', ?_⟩
    rw [List.map_append, Enumerates.map_snd_followed]
    refine congrArg (· ++ _) (List.flatMap_congr fun reading member => ?_)
    rw [same reading member]

theorem Lists.enumerated {grammar : Ambiguous α} {input : Input} {readings : List (α × Input)}
    (lists : grammar.Lists input readings) :
    ∃ found, Enumerates grammar.Derives input found ∧ found.map Prod.snd = readings := by
  induction grammar generalizing input with
  | zero =>
    obtain rfl := lists
    exact ⟨_, .zero input, rfl⟩
  | item =>
    obtain rfl := lists
    refine ⟨_, .item input, ?_⟩
    rw [List.map_map]
    exact List.map_id _
  | pure value =>
    obtain rfl := lists
    exact ⟨_, .pure value input, rfl⟩
  | plus first second ih ih' =>
    obtain ⟨left, right, lists, lists', rfl⟩ := lists
    obtain ⟨found, enumerates, rfl⟩ := ih lists
    obtain ⟨found', enumerates', rfl⟩ := ih' lists'
    refine ⟨_, enumerates.plus enumerates', ?_⟩
    rw [List.map_append, List.map_map, List.map_map]
    rfl
  | bind first next ih ih' =>
    obtain ⟨firsts, follow, lists, lists', rfl⟩ := lists
    obtain ⟨found, enumerates, rfl⟩ := ih lists
    choose! follow' enumerates' same using fun reading member => ih' _ (lists' reading member)
    refine ⟨_, enumerates.bind enumerates', ?_⟩
    rw [Enumerates.map_snd_followed]
    refine List.flatMap_congr fun reading member => ?_
    rw [same reading member]
    exact List.map_id _
  | map f grammar ih =>
    obtain ⟨readings, lists, rfl⟩ := lists
    obtain ⟨found, enumerates, rfl⟩ := ih lists
    refine ⟨_, enumerates.map f, ?_⟩
    rw [List.map_map, List.map_map]
    rfl
  | many repeated ih => exact ListsMany.enumerated ih lists

theorem Lists.derives {grammar : Ambiguous α} {input : Input} {readings : List (α × Input)}
    (lists : grammar.Lists input readings) {reading : α × Input} (member : reading ∈ readings) :
    ∃ derivation, grammar.Derives input derivation reading.1 reading.2 := by
  obtain ⟨found, enumerates, rfl⟩ := lists.enumerated
  obtain ⟨⟨derivation, value, rest⟩, listed, rfl⟩ := List.mem_map.mp member
  exact ⟨derivation, (enumerates.mem_iff ..).mp listed⟩

def Consumes (grammar : Ambiguous α) : Prop :=
  ∀ input derivation value rest, grammar.Derives input derivation value rest →
    rest.remaining < input.remaining

/-- Whatever is repeated consumes something. -/
def Proper : {α : Type} → Ambiguous α → Prop
  | _, .zero | _, .item | _, .pure _ => True
  | _, .plus first second => first.Proper ∧ second.Proper
  | _, .bind first next => first.Proper ∧
      ∀ input derivation value rest, first.Derives input derivation value rest → (next value).Proper
  | _, .map _ grammar => grammar.Proper
  | _, .many repeated => repeated.Proper ∧ repeated.Consumes

/-- A repetition has an end, since every item brings the end of the source nearer. -/
theorem exists_listsMany {repeated : Ambiguous α}
    (listed : ∀ input, ∃ readings, repeated.Lists input readings) (consumes : repeated.Consumes)
    (input : Input) : ∃ readings, ListsMany repeated.Lists input readings := by
  induction left : input.remaining using Nat.strong_induction_on generalizing input with
  | _ left ih =>
    obtain ⟨readings, lists⟩ := listed input
    have each : ∀ reading ∈ readings, ∃ follow, ListsMany repeated.Lists reading.2 follow := by
      intro reading member
      obtain ⟨derivation, derives⟩ := lists.derives member
      exact ih _ (left ▸ consumes _ _ _ _ derives) _ rfl
    choose! follow lists' using each
    exact ⟨_, .intro lists lists'⟩

theorem exists_lists {grammar : Ambiguous α} (proper : grammar.Proper) (input : Input) :
    ∃ readings, grammar.Lists input readings := by
  induction grammar generalizing input with
  | zero | item | pure => exact ⟨_, rfl⟩
  | plus first second ih ih' =>
    obtain ⟨readings, lists⟩ := ih proper.1 input
    obtain ⟨readings', lists'⟩ := ih' proper.2 input
    exact ⟨_, readings, readings', lists, lists', rfl⟩
  | bind first next ih ih' =>
    obtain ⟨readings, lists⟩ := ih proper.1 input
    have each : ∀ reading ∈ readings, ∃ follow, (next reading.1).Lists reading.2 follow := by
      intro reading member
      obtain ⟨derivation, derives⟩ := lists.derives member
      exact ih' reading.1 (proper.2 _ _ _ _ derives) reading.2
    choose! follow lists' using each
    exact ⟨_, readings, follow, lists, lists', rfl⟩
  | map f grammar ih =>
    obtain ⟨readings, lists⟩ := ih proper input
    exact ⟨_, readings, lists, rfl⟩
  | many repeated ih => exact exists_listsMany (ih proper.1) proper.2 input

end Deferred.Ambiguous
