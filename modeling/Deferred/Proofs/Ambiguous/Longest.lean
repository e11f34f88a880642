import Deferred.Proofs.Ambiguous.Readings
import Mathlib.Data.List.Pairwise

/-! The order in which the readings of a repetition come. Of readings that begin with the same items, those with
more items come first. But nothing more is sure: an item that is read in two ways may be followed by more the
second time than it has read the first time. Only where this never happens do the longest readings come first. -/

namespace Deferred.Ambiguous

variable {σ α : Type}

theorem Derivation.Before.asymm {first second : Derivation} (before : first.Before second) :
    ¬second.Before first := by
  intro after
  induction before with
  | left _ ih | right _ ih =>
    cases after with
    | _ after => exact ih after
  | left_right | more_stop => cases after
  | both_first before _ _ ih =>
    cases after with
    | both_first after => exact ih after
    | both_second => exact before.ne rfl
  | both_second _ _ ih =>
    cases after with
    | both_first after => exact after.ne rfl
    | both_second _ after => exact ih after
  | more_first before _ _ ih =>
    cases after with
    | more_first after => exact ih after
    | more_others => exact before.ne rfl
  | more_others _ _ ih =>
    cases after with
    | more_first after => exact after.ne rfl
    | more_others _ after => exact ih after

namespace Enumerates

variable {Reads : Input → Derivation → α → Input → Prop} {input : Input} {found : List (Derivation × α × Input)}

theorem unique (enumerates : Enumerates Reads input found) {derivation : Derivation} {value value' : α}
    {rest rest' : Input} (reads : Reads input derivation value rest)
    (reads' : Reads input derivation value' rest') : value = value' ∧ rest = rest' := by
  have member := (enumerates.mem_iff ..).mpr reads
  have member' := (enumerates.mem_iff ..).mpr reads'
  have same := List.inj_on_of_nodup_map enumerates.nodup member member' rfl
  exact Prod.mk.inj (Prod.mk.inj same).2

theorem pairwise_iff (enumerates : Enumerates Reads input found) (ordered : Input → Input → Prop) :
    ((found.map Prod.snd).Pairwise fun earlier later => ordered earlier.2 later.2) ↔
      ∀ derivation value rest derivation' value' rest', Reads input derivation value rest →
        Reads input derivation' value' rest' → derivation.Before derivation' → ordered rest rest' := by
  rw [List.pairwise_map]
  constructor
  · intro pairwise derivation value rest derivation' value' rest' reads reads' before
    let agrees (earlier later : Derivation × α × Input) : Prop :=
      earlier.1.Before later.1 → ordered earlier.2.2 later.2.2
    have symmetric : Std.Symm fun earlier later => agrees earlier later ∧ agrees later earlier :=
      ⟨fun _ _ => And.symm⟩
    have both : found.Pairwise fun earlier later => agrees earlier later ∧ agrees later earlier :=
      enumerates.sorted.imp₂ (fun _ _ sorted ends => ⟨fun _ => ends, fun after => absurd sorted after.asymm⟩) pairwise
    have member := (enumerates.mem_iff ..).mpr reads
    have member' := (enumerates.mem_iff ..).mpr reads'
    have different : (derivation, value, rest) ≠ (derivation', value', rest') :=
      fun same => before.ne (Prod.mk.inj same).1
    exact (both.forall member member' different).1 before
  · intro ends
    refine enumerates.sorted.imp_of_mem fun {earlier later} member member' before => ?_
    exact ends _ _ _ _ _ _ ((enumerates.mem_iff ..).mp member) ((enumerates.mem_iff ..).mp member') before

end Enumerates

/-- Of two ways to read an item at one place, no repetition that begins with the second gets further than the
first, wherever a repetition may come. -/
def NeverOvertaken (Item : Input → Derivation → α → Input → Prop) (input : Input) : Prop :=
  ∀ start values place, Repeats Item input start values place →
    ∀ first value middle second value' middle', Item place first value middle →
      Item place second value' middle' → first.Before second →
        ∀ others values' rest, Repeats Item middle' others values' rest → middle.remaining ≤ rest.remaining

def Descends (Item : Input → Derivation → α → Input → Prop) (input : Input) : Prop :=
  ∀ derivation values rest derivation' values' rest', Repeats Item input derivation values rest →
    Repeats Item input derivation' values' rest' → derivation.Before derivation' → rest.remaining ≤ rest'.remaining

section Repeats

variable {Item : Input → Derivation → α → Input → Prop} {input : Input}

theorem Repeats.remaining_le
    (nearer : ∀ input derivation value rest, Item input derivation value rest → rest.remaining < input.remaining)
    {derivation : Derivation} {values : List α} {rest : Input}
    (repeats : Repeats Item input derivation values rest) : rest.remaining ≤ input.remaining := by
  induction repeats with
  | more item _ ih => exact ih.trans (Nat.le_of_lt (nearer _ _ _ _ item))
  | stop => exact le_refl _

theorem Descends.of_repeats (descends : Descends Item input) {start : Derivation} {values : List α} {place : Input}
    (repeats : Repeats Item input start values place) : Descends Item place := by
  induction repeats with
  | @more _ _ _ first _ _ _ item _ ih =>
    refine ih fun _ _ _ _ _ _ repeats repeats' before => ?_
    exact descends _ _ _ _ _ _ (.more item repeats) (.more item repeats') (.more_others first before)
  | stop => exact descends

theorem Descends.neverOvertaken (descends : Descends Item input) : NeverOvertaken Item input := by
  intro start values place repeats first value middle second value' middle' item item' before others values' rest more
  exact descends.of_repeats repeats _ _ _ _ _ _ (.more item (.stop middle)) (.more item' more)
    (.more_first before .stop others)

theorem NeverOvertaken.descends
    (nearer : ∀ input derivation value rest, Item input derivation value rest → rest.remaining < input.remaining)
    (unique : ∀ input derivation value rest value' rest', Item input derivation value rest →
      Item input derivation value' rest' → rest = rest')
    (never : NeverOvertaken Item input) : Descends Item input := by
  intro derivation values rest derivation' values' rest' repeats repeats' before
  -- By induction on the repetition that comes first: with the same item in front, both go on from the same place.
  induction repeats generalizing derivation' values' rest' with
  | stop => cases before
  | @more input middle rest first others value values item repeats ih =>
    cases repeats' with
    | stop => exact (Repeats.more item repeats).remaining_le nearer
    | more item' repeats' =>
      cases before with
      | more_first before =>
        have passed := never _ _ _ (.stop input) _ _ _ _ _ _ item item' before _ _ _ repeats'
        exact (repeats.remaining_le nearer).trans passed
      | more_others _ before =>
        obtain rfl := unique _ _ _ _ _ _ item item'
        exact ih (fun _ _ _ further => never _ _ _ (.more item further)) _ _ _ repeats' before

end Repeats

def LongestFirst (readings : List (α × Input)) : Prop :=
  readings.Pairwise fun earlier later => earlier.2.remaining ≤ later.2.remaining

instance (readings : List (α × Input)) : Decidable (LongestFirst readings) :=
  inferInstanceAs (Decidable (readings.Pairwise fun earlier later => earlier.2.remaining ≤ later.2.remaining))

theorem Lists.comes [Storable (Except Empty (List (α × Input))) σ] {grammar : Ambiguous α} (proper : grammar.Proper)
    {input : Input} {readings : List (α × Input)} (lists : grammar.Lists input readings) :
    Comes (grammar.parseAll input : Future σ Empty _) (.ok readings) :=
  SpeltBy.comes (lists.spelt proper)

theorem Proper.unique {grammar : Ambiguous α} (proper : grammar.Proper) (input : Input) (derivation : Derivation)
    (value : α) (rest : Input) (value' : α) (rest' : Input) (derives : grammar.Derives input derivation value rest)
    (derives' : grammar.Derives input derivation value' rest') : rest = rest' := by
  obtain ⟨readings, lists⟩ := exists_lists proper input
  obtain ⟨found, enumerates, -⟩ := lists.enumerated
  exact (enumerates.unique derives derives').2

/-- The readings of a repetition come longest first if, and only if, no way to read an item is overtaken by a
repetition that begins with a later way to read it. -/
theorem many_longest_first_iff [Storable (Except Empty (List (List α × Input))) σ] {repeated : Ambiguous α}
    (proper : (Ambiguous.many repeated).Proper) (input : Input) :
    ∃ readings, (Ambiguous.many repeated).Lists input readings ∧
      Comes ((Ambiguous.many repeated).parseAll input : Future σ Empty _) (.ok readings) ∧
      (LongestFirst readings ↔ NeverOvertaken repeated.Derives input) := by
  obtain ⟨readings, lists⟩ := exists_lists proper input
  obtain ⟨found, enumerates, rfl⟩ := lists.enumerated
  refine ⟨_, lists, lists.comes proper, ?_⟩
  have ordered : LongestFirst (found.map Prod.snd) ↔ Descends repeated.Derives input :=
    enumerates.pairwise_iff fun earlier later => earlier.remaining ≤ later.remaining
  rw [ordered]
  exact ⟨fun descends => descends.neverOvertaken, fun never => never.descends proper.2 proper.1.unique⟩

theorem neverOvertaken_of_single {Item : Input → Derivation → α → Input → Prop}
    (single : ∀ place first value middle second value' middle', Item place first value middle →
      Item place second value' middle' → first = second) (input : Input) : NeverOvertaken Item input :=
  fun _ _ _ _ _ _ _ _ _ _ item item' before =>
    absurd (single _ _ _ _ _ _ _ item item') before.ne

/-- Any number of characters, each read in one way. -/
theorem many_longest_first_iff_item : (Ambiguous.many .item).Proper ∧
    ∃ readings, Comes ((Ambiguous.many .item).parseAll (.ofString "ab") :
        Future (Except Empty (List (List Char × Input))) Empty _) (.ok readings) ∧ LongestFirst readings := by
  have proper : (Ambiguous.many .item).Proper := ⟨trivial, consumes_item⟩
  have single : ∀ place first value middle second value' middle', Ambiguous.item.Derives place first value middle →
      Ambiguous.item.Derives place second value' middle' → first = second :=
    fun _ _ _ _ _ _ _ derives derives' => derives.1.trans derives'.1.symm
  obtain ⟨readings, -, comes, longest⟩ := many_longest_first_iff (σ := Except Empty (List (List Char × Input)))
    proper (.ofString "ab")
  exact ⟨proper, readings, comes, longest.mpr (neverOvertaken_of_single single _)⟩

theorem consumes_sat (accepts : Char → Bool) : (sat accepts).Consumes := by
  rintro input derivation value rest ⟨earlier, later, c, between, -, item, behind⟩
  have nearer := consumes_item _ _ _ _ item
  dsimp only at behind
  split at behind
  · obtain ⟨-, -, rfl⟩ := behind
    exact nearer
  · exact behind.elim

theorem Consumes.seq {first : Ambiguous α} {second : Ambiguous β} (consumes : first.Consumes)
    (consumes' : second.Consumes) : (first.seq second).Consumes := by
  rintro input derivation value rest ⟨earlier, later, middle, between, -, derives, _, -, derives'⟩
  exact (consumes' _ _ _ _ derives').trans (consumes _ _ _ _ derives)

theorem proper_sat (accepts : Char → Bool) : (sat accepts).Proper := by
  refine ⟨trivial, fun input derivation c rest derives => ?_⟩
  dsimp only
  split <;> trivial

theorem lists_char (expected : Char) (input : Input) :
    (char expected).Lists input (input.advance.toList.filter fun reading => reading.1 == expected) := by
  refine ⟨_, fun reading => if reading.1 == expected then [reading] else [], rfl, fun reading _ => ?_, ?_⟩
  · dsimp only
    split <;> rfl
  · cases input.advance with
    | none => rfl
    | some reading => simp [List.filter_cons]

theorem listsMany_stop {Item : Input → List (α × Input) → Prop} {input : Input} (nothing : Item input []) :
    ListsMany Item input [([], input)] :=
  @ListsMany.intro _ Item input [] (fun _ => []) nothing fun _ member => absurd member List.not_mem_nil

def shortOrLong : Ambiguous (List Char) :=
  .plus ((char 'a').map fun a => [a]) (((char 'a').seq (char 'b')).map fun (a, b) => [a, b])

def shortOrLongReadings (input : Input) : List (List Char × Input) :=
  let charAt (expected : Char) (input : Input) := input.advance.toList.filter fun reading => reading.1 == expected
  ((charAt 'a' input).map fun (a, rest) => ([a], rest)) ++
    ((charAt 'a' input).flatMap fun (a, rest) => (charAt 'b' rest).map fun (b, rest) => ([a, b], rest))

theorem lists_shortOrLong (input : Input) : shortOrLong.Lists input (shortOrLongReadings input) := by
  refine ⟨_, _, ⟨_, lists_char 'a' input, rfl⟩, ⟨_, ⟨_, _, lists_char 'a' input,
    fun reading _ => ⟨_, lists_char 'b' reading.2, rfl⟩, rfl⟩, rfl⟩, ?_⟩
  rw [List.map_flatMap]
  simp only [shortOrLongReadings, List.map_map]
  rfl

/-- The item consumes something wherever it is read, but its second way to read `ab` overtakes the first: the
repetition that gets to the end comes after one that does not. -/
theorem many_not_longest_first : (Ambiguous.many shortOrLong).Proper ∧
    ∃ readings, Comes ((Ambiguous.many shortOrLong).parseAll (.ofList ['a', 'b'] 0) :
        Future (Except Empty (List (List (List Char) × Input))) Empty _) (.ok readings) ∧
      readings.map (fun reading => (reading.1, reading.2.pos)) = [([['a']], 1), ([['a', 'b']], 2), ([], 0)] ∧
      ¬LongestFirst readings := by
  have consumes : shortOrLong.Consumes := by
    rintro input derivation value rest (⟨_, -, _, -, derives⟩ | ⟨_, -, _, -, derives⟩)
    · exact consumes_sat _ _ _ _ _ derives
    · exact (consumes_sat _).seq (consumes_sat _) _ _ _ _ derives
  have proper : (Ambiguous.many shortOrLong).Proper :=
    ⟨⟨proper_sat _, proper_sat _, fun _ _ _ _ _ => proper_sat _⟩, consumes⟩
  -- Behind either reading of the item nothing more can be read.
  have none_behind : ∀ reading ∈ shortOrLongReadings (.ofList ['a', 'b'] 0),
      shortOrLongReadings reading.2 = [] := by
    decide
  have lists : (Ambiguous.many shortOrLong).Lists (.ofList ['a', 'b'] 0) _ :=
    ListsMany.intro (lists_shortOrLong _) fun reading member =>
      listsMany_stop (none_behind reading member ▸ lists_shortOrLong reading.2)
  refine ⟨proper, _, lists.comes proper, ?_, ?_⟩
  · decide
  · decide

end Deferred.Ambiguous
