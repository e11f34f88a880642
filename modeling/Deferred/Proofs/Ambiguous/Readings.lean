import Deferred.Proofs.Ambiguous.Derives
import Deferred.Proofs.FutureList.Operations

/-! What a search for all readings finds on a loop. The lazy list of the readings of an input denotes the
readings of all its derivations, in their order, and so does every beginning of it. -/

namespace Deferred.Ambiguous

open FutureList (denotes_nil denotes_singleton)
open Loop (hospitable_awaits)

variable {σ α β : Type}

/-- The lazy list has these values and ends, wherever nothing else is to be done. -/
abbrev SpeltBy (readings : Readings σ α) (values : List (α × Input)) : Prop :=
  readings.Denotes Loop.Awaiting (.finite values .nil)

theorem SpeltBy.flatMap {f : α × Input → Readings σ β} {readings : Readings σ α} {values : List (α × Input)}
    {expand : α × Input → List (β × Input)} (spelt : SpeltBy readings values)
    (each : ∀ value ∈ values, SpeltBy (f value) (expand value)) :
    SpeltBy (FutureList.flatMap f readings) (values.flatMap expand) :=
  FutureList.Denotes.flatMap hospitable_awaits spelt (.all each)

/-- As long as an item consumes something, a repetition has a bound that lets it go on. -/
theorem ListsMany.spelt {Item : Input → List (α × Input) → Prop} {item : Input → Readings σ α}
    (each : ∀ input readings, Item input readings → SpeltBy (item input) readings)
    (consumes : ∀ input readings, Item input readings →
      ∀ reading ∈ readings, reading.2.remaining < input.remaining)
    {input : Input} {readings : List (List α × Input)} (lists : ListsMany Item input readings)
    (left : Nat) (enough : input.remaining ≤ left) :
    SpeltBy (manyReadings item left input) readings := by
  induction lists generalizing left with
  | @intro input readings follow listed lists ih =>
    unfold manyReadings
    have found := each input readings listed
    refine (SpeltBy.flatMap found fun reading member => ?_).append hospitable_awaits fun _ _ =>
      denotes_singleton hospitable_awaits _
    obtain ⟨value, rest⟩ := reading
    have nearer : rest.remaining < input.remaining := consumes input readings listed _ member
    cases left with
    | zero => omega
    | succ left =>
      have behind : rest.remaining ≤ left := by omega
      exact (ih _ member left behind).map hospitable_awaits _

theorem Lists.spelt {grammar : Ambiguous α} (proper : grammar.Proper) {input : Input}
    {readings : List (α × Input)} (lists : grammar.Lists input readings) :
    SpeltBy (grammar.readings input : Readings σ α) readings := by
  induction grammar generalizing input with
  | zero =>
    obtain rfl := lists
    exact denotes_nil hospitable_awaits
  | item =>
    obtain rfl := lists
    unfold Ambiguous.readings
    cases input.advance with
    | none => exact denotes_nil hospitable_awaits
    | some reading => exact denotes_singleton hospitable_awaits reading
  | pure value =>
    obtain rfl := lists
    exact denotes_singleton hospitable_awaits (value, input)
  | plus first second ih ih' =>
    obtain ⟨left, right, lists, lists', rfl⟩ := lists
    exact (ih proper.1 lists).append hospitable_awaits fun _ _ => ih' proper.2 lists'
  | bind first next ih ih' =>
    obtain ⟨firsts, follow, lists, lists', rfl⟩ := lists
    refine SpeltBy.flatMap (ih proper.1 lists) fun reading member => ?_
    obtain ⟨derivation, derives⟩ := lists.derives member
    exact ih' reading.1 (proper.2 _ _ _ _ derives) (lists' reading member)
  | map f grammar ih =>
    obtain ⟨found, lists, rfl⟩ := lists
    exact (ih proper lists).map hospitable_awaits _
  | many repeated ih =>
    refine ListsMany.spelt (fun _ _ lists => ih proper.1 lists) ?_ lists _ (le_refl _)
    intro input readings lists reading member
    obtain ⟨derivation, derives⟩ := lists.derives member
    exact proper.2 _ _ _ _ derives

/-- On a loop where nothing else is to be done, waiting for a future gives this outcome, once the bound on
searches is large enough. -/
def Comes (future : Future σ Empty α) (outcome : Except Empty α) [Storable (Except Empty α) σ] : Prop :=
  ∃ least, ∀ bound, least < bound → ∀ loop : Loop σ, loop.Vacant →
    ∃ ran after, loop.waitFor bound future = some ⟨some outcome, ran, after⟩ ∧ after.Vacant

theorem SpeltBy.comes [Storable (Except Empty (List (α × Input))) σ] {readings : Readings σ α}
    {values : List (α × Input)} (spelt : SpeltBy readings values) : Comes readings.toList (.ok values) := by
  obtain ⟨least, _, waits⟩ := Future.ComesTo.waitFor hospitable_awaits (spelt.toList hospitable_awaits) ()
  refine ⟨least, fun bound enough loop vacant => ?_⟩
  obtain ⟨ran, later, groups, there, waited⟩ := waits loop vacant.awaits bound (Nat.le_of_lt enough)
  obtain ⟨ready, low, timers⟩ := there.vacant
  exact ⟨ran, _, waited, ready, low, timers⟩

/-- A list has all readings of an input with their derivations, in the order of a search from left to
right, and it is what waiting for all readings gives, or for the first so many. -/
structure Finds (σ : Type) [Storable (Except Empty (List (α × Input))) σ] (grammar : Ambiguous α)
    (input : Input) (found : List (Derivation × α × Input)) : Prop where
  sorted : found.Pairwise fun earlier later => earlier.1.Before later.1
  nodup : (found.map Prod.fst).Nodup
  mem_iff : ∀ derivation value rest,
    (derivation, value, rest) ∈ found ↔ grammar.Derives input derivation value rest
  lists : grammar.Lists input (found.map Prod.snd)
  parseAll : Comes (grammar.parseAll input : Future σ Empty _) (.ok (found.map Prod.snd))
  take : ∀ count, Comes ((grammar.readings input : Readings σ α).take count).toList
    (.ok ((found.map Prod.snd).take count))

theorem consumes_item : item.Consumes := by
  intro input derivation c rest derives
  obtain ⟨-, stands, -, -⟩ := derives
  rw [← rest.rest_length, ← input.rest_length, stands]
  exact Nat.lt_succ_self _

end Deferred.Ambiguous
