import Deferred.Proofs.FutureList.Denotes

/-! A list of lists as one list. Where a list has nothing more, the search goes on to the next one and passes
over the empty lists there, until it finds a cell or a list that has not ended with the empty list. Each list
that is passed over takes one from the bound of the search. -/

universe u v w z

namespace Deferred

variable {σ ε κ : Type}

namespace FutureList

open Future (Forces forces_succeed)
open Meaning (firsts)

variable {place : κ → Nat → Loop σ → Prop} {α : Type v} {β : Type w} {f : α → FutureList.{w, z} σ ε β}
  {list : FutureList.{v, u} σ ε α}

/-- What comes of the search for the next cell. The bound of the search is not the one of the host if something
has been passed over. -/
def Looks (place : κ → Nat → Loop σ → Prop) (f : α → FutureList.{w, z} σ ε β) (list : FutureList.{v, u} σ ε α) :
    (list.flatMap f).State → Except (Fault ε) (Option (list.flatMap f).Cell) → Prop
  | .inl state, found => Forces place (fun bound => search (fun _ => []) f list bound state) found
  | .inr inner, found => (list.flatMap f).Finds place (.inr inner) found

theorem Looks.finds {state : (list.flatMap f).State} {found : Except (Fault ε) (Option (list.flatMap f).Cell)}
    (looks : Looks place f list state found) : (list.flatMap f).Finds place state found := by
  cases state with
  | inl state => exact Forces.bounded looks
  | inr inner => exact looks

theorem looks_nil (hospitable : Hospitable place) {state : list.State}
    (found : list.Finds place state (.ok none)) : Looks place f list (.inl state) (.ok none) :=
  Forces.succ (found.bind hospitable (forces_succeed hospitable none))

theorem looks_cell (hospitable : Hospitable place) {state : list.State} {fault : Fault ε}
    (found : list.Finds place state (.error fault)) : Looks place f list (.inl state) (.error fault) :=
  Forces.succ (found.bind_fault hospitable _)

theorem looks_member (hospitable : Hospitable place) {state : list.State} {cell : list.Cell} {fault : Fault ε}
    (found : list.Finds place state (.ok (some cell)))
    (shown : Forces place (fun _ => list.head cell) (.error fault)) :
    Looks place f list (.inl state) (.error fault) :=
  Forces.succ (found.bind hospitable (shown.bind_fault hospitable _))

section

variable {state : list.State} {cell : list.Cell} {value : α}

theorem looks_inner (hospitable : Hospitable place) {inner : (f value).Cell}
    (found : list.Finds place state (.ok (some cell)))
    (shown : Forces place (fun _ => list.head cell) (.ok value))
    (first : (f value).Finds place (f value).start (.ok (some inner))) :
    Looks place f list (.inl state) (.ok (some ⟨value, inner, list.tail cell⟩)) :=
  Forces.succ (found.bind hospitable (shown.bind hospitable
    (first.bind hospitable (forces_succeed hospitable _))))

theorem looks_fault (hospitable : Hospitable place) {fault : Fault ε}
    (found : list.Finds place state (.ok (some cell)))
    (shown : Forces place (fun _ => list.head cell) (.ok value))
    (first : (f value).Finds place (f value).start (.error fault)) :
    Looks place f list (.inl state) (.error fault) :=
  Forces.succ (found.bind hospitable (shown.bind hospitable (first.bind_fault hospitable _)))

variable {rest : list.State} {inner : (f value).State} {state' : (list.flatMap f).State}

def Enters (place : κ → Nat → Loop σ → Prop) (f : α → FutureList.{w, z} σ ε β) (list : FutureList.{v, u} σ ε α)
    (value : α) (rest : list.State) (inner : (f value).State) : (list.flatMap f).State → Prop
  | .inl state => inner = (f value).start ∧ ∃ cell, list.Finds place state (.ok (some cell)) ∧
      Forces place (fun _ => list.head cell) (.ok value) ∧ list.tail cell = rest
  | .inr within => within = ⟨value, inner, rest⟩

theorem simulates_inner (hospitable : Hospitable place) :
    Simulates place (f value) (list.flatMap f) (Looks place f list) (fun cell => ⟨value, cell, rest⟩)
      (Enters place f list value rest) where
  found := by
    rintro _ (state | within) cell enters first
    · obtain ⟨rfl, _, found, shown, rfl⟩ := enters
      exact looks_inner hospitable found shown first
    · obtain rfl := enters
      exact first.bind hospitable (forces_succeed hospitable _)
  fault := by
    rintro _ (state | within) fault enters first
    · obtain ⟨rfl, _, found, shown, rfl⟩ := enters
      exact looks_fault hospitable found shown first
    · obtain rfl := enters
      exact first.bind_fault hospitable _
  head _ := rfl
  tail _ := rfl

theorem Enters.looks (hospitable : Hospitable place) (enters : Enters place f list value rest inner state')
    (ended : (f value).Finds place inner (.ok none)) {looked : Except (Fault ε) (Option (list.flatMap f).Cell)}
    (looks : Looks place f list (.inl rest) looked) : Looks place f list state' looked := by
  cases state' with
  | inl state =>
    obtain ⟨rfl, _, found, shown, rfl⟩ := enters
    exact Forces.succ (found.bind hospitable (shown.bind hospitable (ended.bind hospitable looks)))
  | inr within =>
    obtain rfl := enters
    exact ended.bind hospitable (Forces.bounded looks)

end

section

variable {state : list.State} {values : List α} {ending : Option (Ending ε)} {expand : α → List β}

theorem Gives.flatMap (hospitable : Hospitable place)
    (gives : list.Gives place (list.Finds place) state values ending)
    (ends : ∀ value ∈ values, (f value).Denotes place (.finite (expand value) .nil)) :
    (list.flatMap f).Gives place (Looks place f list) (.inl state) (values.flatMap expand) ending := by
  induction gives with
  | pause => exact .pause _
  | nil found => exact .nil (looks_nil hospitable found)
  | cell found => exact .cell (looks_cell hospitable found)
  | member found shown => exact .cell (looks_member hospitable found shown)
  | @cons state cell value values _ found shown _ ih =>
    obtain ⟨first, others⟩ := List.forall_mem_cons.mp ends
    have enters : Enters place f list value (list.tail cell) (f value).start (.inl state) :=
      ⟨rfl, cell, found, shown, rfl⟩
    refine (simulates_inner hospitable).across enters first fun _ _ there ended => ?_
    exact (ih others).of_finds fun _ looks => there.looks hospitable ended looks

/-- A value that is replaced by a list that does not end with the empty list, behind others that are. -/
theorem Gives.flatMap_snoc (hospitable : Hospitable place) {front : List α} {value : α} {last : List β}
    {ending' : Option (Ending ε)}
    (gives : list.Gives place (list.Finds place) state (front ++ [value]) ending)
    (ends : ∀ value ∈ front, (f value).Denotes place (.finite (expand value) .nil))
    (gives' : (f value).Gives place ((f value).Finds place) (f value).start last ending')
    (unended : ending' ≠ some .nil) :
    (list.flatMap f).Gives place (Looks place f list) (.inl state) (front.flatMap expand ++ last)
      ending' := by
  induction front generalizing state with
  | nil =>
    cases gives with
    | @cons _ cell _ _ _ found shown =>
      have enters : Enters place f list value (list.tail cell) (f value).start (.inl state) :=
        ⟨rfl, cell, found, shown, rfl⟩
      exact (simulates_inner hospitable).unended enters gives' unended
  | cons member front ih =>
    obtain ⟨first, others⟩ := List.forall_mem_cons.mp ends
    cases gives with
    | @cons _ cell _ _ _ found shown rest =>
      have enters : Enters place f list member (list.tail cell) (f member).start (.inl state) :=
        ⟨rfl, cell, found, shown, rfl⟩
      rw [List.flatMap_cons, List.append_assoc]
      refine (simulates_inner hospitable).across enters first fun _ _ there ended => ?_
      exact (ih rest others).of_finds fun _ looks => there.looks hospitable ended looks

end

theorem Denotes.flatMap (hospitable : Hospitable place) {denoted : Meaning ε α} {result : Meaning ε β}
    (denotes : list.Denotes place denoted)
    (flattens : denoted.Flattens (fun value => (f value).Denotes place) result) :
    (list.flatMap f).Denotes place result := by
  cases flattens with
  | all ends => exact (Gives.flatMap hospitable denotes ends).mono fun _ _ looks => looks.finds
  | @upTo _ front value expand last begins ends shows unended =>
    refine denotes_behind fun values ending shown => ?_
    have unended' : ending ≠ some .nil := by
      rintro rfl
      cases last with
      | finite all last =>
        obtain ⟨-, same⟩ := shown
        exact unended all (congrArg _ (Option.some.inj same).symm)
      | infinite => obtain ⟨_, _, same⟩ := shown; cases same
    exact (Gives.flatMap_snoc hospitable (denotes.begins begins) ends (shows.shows shown) unended').mono
      fun _ _ looks => looks.finds
  | @endless values expand result ends reaches =>
    intro count
    obtain ⟨enough, within⟩ := reaches count
    have all : ∀ value ∈ firsts values enough, (f value).Denotes place (.finite (expand value) .nil) := by
      intro value member
      obtain ⟨index, -, rfl⟩ := List.mem_map.mp member
      exact ends index
    have gives := (Gives.flatMap hospitable (denotes enough) all).mono fun _ _ looks => looks.finds
    exact gives.begins within

end FutureList

end Deferred
