import Deferred.FutureList.Basic
import Deferred.Proofs.FutureList.Meaning

/-! What a lazy list denotes is found by forcing it cell by cell and member by member. It is one thing. A list that
simulates another one denotes what that one does, as far as that one does not end. -/

universe u v w

namespace Deferred

variable {σ ε κ : Type} {α : Type u}

namespace FutureList

open Future (Forces)
open Meaning (firsts)

variable {place : κ → Nat → Loop σ → Prop}

/-- Forcing a list from a position on, one cell and member after another, gives these values, and then it ends in
some way or, if none is given, has not been forced any further. `finds` says what is found at a position. -/
inductive Gives (place : κ → Nat → Loop σ → Prop) (list : FutureList.{u, v} σ ε α)
    (finds : list.State → Except (Fault ε) (Option list.Cell) → Prop) :
    list.State → List α → Option (Ending ε) → Prop where
  | pause (state : list.State) : Gives place list finds state [] none
  | nil {state : list.State} (found : finds state (.ok none)) :
      Gives place list finds state [] (some .nil)
  | cell {state : list.State} {fault : Fault ε} (found : finds state (.error fault)) :
      Gives place list finds state [] (some (.fault fault))
  | member {state : list.State} {cell : list.Cell} {fault : Fault ε} (found : finds state (.ok (some cell)))
      (shown : Forces place (fun _ => list.head cell) (.error fault)) :
      Gives place list finds state [] (some (.fault fault))
  | cons {state : list.State} {cell : list.Cell} {value : α} {values : List α} {ending : Option (Ending ε)}
      (found : finds state (.ok (some cell))) (shown : Forces place (fun _ => list.head cell) (.ok value))
      (rest : Gives place list finds (list.tail cell) values ending) :
      Gives place list finds state (value :: values) ending

def Finds (place : κ → Nat → Loop σ → Prop) (list : FutureList.{u, v} σ ε α) (state : list.State)
    (found : Except (Fault ε) (Option list.Cell)) : Prop :=
  Forces place (fun _ => list.node state) found

/-- Forcing a list from its start on gives what is denoted. -/
def Denotes (place : κ → Nat → Loop σ → Prop) (list : FutureList.{u, v} σ ε α) : Meaning ε α → Prop
  | .finite values ending => list.Gives place (list.Finds place) list.start values (some ending)
  | .infinite values => ∀ count,
      list.Gives place (list.Finds place) list.start (firsts values count) none

section

variable {list left right : FutureList.{u, v} σ ε α}
  {finds finds' : list.State → Except (Fault ε) (Option list.Cell) → Prop} {state state' : list.State}
  {values values' : List α} {ending : Option (Ending ε)}

theorem Gives.of_finds (same : ∀ found, finds state found → finds state' found)
    (gives : list.Gives place finds state values ending) : list.Gives place finds state' values ending := by
  cases gives with
  | pause => exact .pause state'
  | nil found => exact .nil (same _ found)
  | cell found => exact .cell (same _ found)
  | member found shown => exact .member (same _ found) shown
  | cons found shown rest => exact .cons (same _ found) shown rest

theorem Gives.mono (more : ∀ state found, finds state found → finds' state found)
    (gives : list.Gives place finds state values ending) : list.Gives place finds' state values ending := by
  induction gives with
  | pause state => exact .pause state
  | nil found => exact .nil (more _ _ found)
  | cell found => exact .cell (more _ _ found)
  | member found shown => exact .member (more _ _ found) shown
  | cons found shown _ ih => exact .cons (more _ _ found) shown ih

theorem Gives.begins {front : List α} (gives : list.Gives place finds state values ending)
    (within : front <+: values) : list.Gives place finds state front none := by
  induction gives generalizing front with
  | pause state => exact List.prefix_nil.mp within ▸ .pause state
  | nil | cell | member => exact List.prefix_nil.mp within ▸ .pause _
  | cons found shown _ ih =>
    cases front with
    | nil => exact .pause _
    | cons value front =>
      obtain ⟨rfl, inside⟩ := List.cons_prefix_cons.mp within
      exact .cons found shown (ih inside)

theorem Denotes.begins {denoted : Meaning ε α} {front : List α} (denotes : list.Denotes place denoted)
    (within : denoted.Begins front) : list.Gives place (list.Finds place) list.start front none := by
  cases denoted with
  | finite values ending => exact Gives.begins denotes within
  | infinite values =>
    have gives := denotes front.length
    rwa [← within] at gives

theorem Denotes.shows {denoted : Meaning ε α} (denotes : list.Denotes place denoted)
    (shows : denoted.Shows values ending) : list.Gives place (list.Finds place) list.start values ending := by
  cases denoted with
  | finite all last =>
    obtain ⟨rfl, rfl⟩ := shows
    exact denotes
  | infinite all =>
    obtain ⟨count, rfl, rfl⟩ := shows
    exact denotes count

theorem denotes_behind {front : List α} {denoted : Meaning ε α}
    (gives : ∀ values ending, denoted.Shows values ending →
      list.Gives place (list.Finds place) list.start (front ++ values) ending) :
    list.Denotes place (denoted.behind front) := by
  cases denoted with
  | finite values last => exact gives values (some last) ⟨rfl, rfl⟩
  | infinite values =>
    intro count
    have more := gives (firsts values count) none ⟨count, rfl, rfl⟩
    rw [← Meaning.firsts_prepend] at more
    exact more.begins (Meaning.firsts_prefix _ (Nat.le_add_left ..))

theorem Finds.unique {found found' : Except (Fault ε) (Option list.Cell)}
    (finds : list.Finds Loop.Awaiting state found) (finds' : list.Finds Loop.Awaiting state found') :
    found = found' :=
  Future.Forces.unique finds finds'

theorem Gives.eq_of_length {ending' : Option (Ending ε)}
    (gives : list.Gives Loop.Awaiting (list.Finds Loop.Awaiting) state values ending)
    (gives' : list.Gives Loop.Awaiting (list.Finds Loop.Awaiting) state values' ending')
    (same : values.length = values'.length) : values = values' := by
  induction gives generalizing values' with
  | pause | nil | cell | member => exact (List.eq_nil_of_length_eq_zero same.symm).symm
  | cons found shown _ ih =>
    cases gives' with
    | pause | nil | cell | member => cases same
    | cons found' shown' rest' =>
      cases found.unique found'
      cases Future.Forces.unique shown shown'
      rw [ih rest' (Nat.succ.inj same)]

theorem Gives.length_le {end' : Ending ε}
    (gives : list.Gives Loop.Awaiting (list.Finds Loop.Awaiting) state values (some end'))
    (gives' : list.Gives Loop.Awaiting (list.Finds Loop.Awaiting) state values' ending) :
    values'.length ≤ values.length := by
  generalize ended : some end' = ending' at gives
  induction gives generalizing values' with
  | pause => cases ended
  | nil found | cell found =>
    cases gives' with
    | cons found' => cases found.unique found'
    | _ => exact le_refl _
  | member found shown =>
    cases gives' with
    | cons found' shown' =>
      cases found.unique found'
      cases Future.Forces.unique shown shown'
    | _ => exact le_refl _
  | cons found shown _ ih =>
    cases gives' with
    | cons found' shown' rest' =>
      cases found.unique found'
      exact Nat.succ_le_succ (ih rest' ended)
    | _ => exact Nat.zero_le _

theorem Gives.ending_unique {end' end'' : Ending ε}
    (gives : list.Gives Loop.Awaiting (list.Finds Loop.Awaiting) state values (some end'))
    (gives' : list.Gives Loop.Awaiting (list.Finds Loop.Awaiting) state values (some end'')) : end' = end'' := by
  generalize ended : some end' = ending at gives
  induction gives with
  | pause => cases ended
  | nil found =>
    obtain rfl := Option.some.inj ended
    cases gives' with
    | nil => rfl
    | cell found' | member found' => cases found.unique found'
  | cell found =>
    obtain rfl := Option.some.inj ended
    cases gives' with
    | nil found' | member found' => cases found.unique found'
    | cell found' => cases found.unique found'; rfl
  | member found shown =>
    obtain rfl := Option.some.inj ended
    cases gives' with
    | nil found' | cell found' => cases found.unique found'
    | member found' shown' =>
      cases found.unique found'
      cases Future.Forces.unique shown shown'
      rfl
  | cons found _ _ ih =>
    cases gives' with
    | cons found' _ rest' =>
      cases found.unique found'
      exact ih rest' ended

theorem Denotes.unique {denoted denoted' : Meaning ε α} (denotes : list.Denotes Loop.Awaiting denoted)
    (denotes' : list.Denotes Loop.Awaiting denoted') : denoted = denoted' := by
  cases denoted with
  | finite values ending =>
    cases denoted' with
    | finite values' ending' =>
      obtain rfl := Gives.eq_of_length denotes denotes'
        (le_antisymm (Gives.length_le denotes' denotes) (Gives.length_le denotes denotes'))
      rw [Gives.ending_unique denotes denotes']
    | infinite values' =>
      have longer := Gives.length_le denotes (denotes' (values.length + 1))
      rw [Meaning.length_firsts] at longer
      exact absurd longer (Nat.not_succ_le_self _)
  | infinite values =>
    cases denoted' with
    | finite values' ending' =>
      have longer := Gives.length_le denotes' (denotes (values'.length + 1))
      rw [Meaning.length_firsts] at longer
      exact absurd longer (Nat.not_succ_le_self _)
    | infinite values' =>
      have same (count : Nat) : firsts values count = firsts values' count :=
        Gives.eq_of_length (denotes count) (denotes' count) (by simp)
      exact congrArg _ (Meaning.eq_of_firsts same)

end

section Simulation

variable {part : FutureList.{u, v} σ ε α} {whole : FutureList.{u, w} σ ε α}
  {finds : whole.State → Except (Fault ε) (Option whole.Cell) → Prop} {cell : part.Cell → whole.Cell}
  {stands : part.State → whole.State → Prop}

/-- At the positions of the whole list that stand for positions of a part of it, the cells of the part are found,
and its faults. Where the part ends, anything may be found. -/
structure Simulates (place : κ → Nat → Loop σ → Prop) (part : FutureList.{u, v} σ ε α)
    (whole : FutureList.{u, w} σ ε α) (finds : whole.State → Except (Fault ε) (Option whole.Cell) → Prop)
    (cell : part.Cell → whole.Cell) (stands : part.State → whole.State → Prop) : Prop where
  found : ∀ {state state' inner}, stands state state' → part.Finds place state (.ok (some inner)) →
    finds state' (.ok (some (cell inner)))
  fault : ∀ {state state' fault}, stands state state' → part.Finds place state (.error fault) →
    finds state' (.error fault)
  head : ∀ inner, whole.head (cell inner) = part.head inner
  tail : ∀ inner, stands (part.tail inner) (whole.tail (cell inner))

variable {state : part.State} {state' : whole.State} {values more : List α} {ending : Option (Ending ε)}

theorem Simulates.unended (simulates : Simulates place part whole finds cell stands)
    (here : stands state state') (gives : part.Gives place (part.Finds place) state values ending)
    (unended : ending ≠ some .nil) : whole.Gives place finds state' values ending := by
  induction gives generalizing state' with
  | pause => exact .pause _
  | nil => exact absurd rfl unended
  | cell found => exact .cell (simulates.fault here found)
  | member found shown => exact .member (simulates.found here found) ((simulates.head _).symm ▸ shown)
  | cons found shown _ ih =>
    exact .cons (simulates.found here found) ((simulates.head _).symm ▸ shown) (ih (simulates.tail _) unended)

theorem Simulates.across (simulates : Simulates place part whole finds cell stands)
    (here : stands state state') (gives : part.Gives place (part.Finds place) state values (some .nil))
    (follows : ∀ state state', stands state state' → part.Finds place state (.ok none) →
      whole.Gives place finds state' more ending) :
    whole.Gives place finds state' (values ++ more) ending := by
  generalize ended : some Ending.nil = ending' at gives
  induction gives generalizing state' with
  | pause | cell | member => cases ended
  | nil found => exact follows _ _ here found
  | cons found shown _ ih =>
    exact .cons (simulates.found here found) ((simulates.head _).symm ▸ shown) (ih (simulates.tail _) ended)

theorem Simulates.gives (simulates : Simulates place part whole finds cell stands)
    (ends : ∀ state state', stands state state' → part.Finds place state (.ok none) → finds state' (.ok none))
    (here : stands state state') (gives : part.Gives place (part.Finds place) state values ending) :
    whole.Gives place finds state' values ending := by
  by_cases ended : ending = some .nil
  · subst ended
    rw [← List.append_nil values]
    exact simulates.across here gives fun _ _ there found => .nil (ends _ _ there found)
  · exact simulates.unended here gives ended

end Simulation

end FutureList

end Deferred
