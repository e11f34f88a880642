import Deferred.Proofs.FutureList.Flattened

/-! The operations on lazy lists, by what the lists denote. Each of them forces no more of its lists than its
result needs: a cell that fails, that is never found or that goes on for ever does no harm behind the last member
that is asked for. -/

universe u v w z

namespace Deferred

variable {σ ε κ : Type} {place : κ → Nat → Loop σ → Prop}

namespace FutureList

open Future (Forces forces_succeed)
open Meaning (firsts)

section Unfold

variable {ι α : Type v} {step : ι → Option (α × ι)}

inductive Steps (step : ι → Option (α × ι)) : ι → List α → ι → Prop where
  | here (seed : ι) : Steps step seed [] seed
  | more {seed next last : ι} {value : α} {values : List α} (stepped : step seed = some (value, next))
      (steps : Steps step next values last) : Steps step seed (value :: values) last

def Unfolds (step : ι → Option (α × ι)) (seed : ι) : Meaning ε α → Prop
  | .finite values ending => ending = .nil ∧ ∃ last, Steps step seed values last ∧ step last = none
  | .infinite values => ∀ count, ∃ last, Steps step seed (firsts values count) last

theorem finds_unfold (hospitable : Hospitable place) (start seed : ι) :
    (unfold step start : FutureList σ ε α).Finds place seed (.ok (step seed)) := by
  have stepped : Forces place (fun _ => (Future.succeed (step seed) : Future σ ε (Option (α × ι))))
      (.ok (step seed)) := forces_succeed hospitable (step seed)
  change Forces place (fun _ => Future.later fun _ => Future.succeed (step seed)) _
  exact Forces.later hospitable stepped

theorem Steps.gives (hospitable : Hospitable place) {start seed last : ι} {values : List α}
    {ending : Option (Ending ε)} (steps : Steps step seed values last)
    (gives : (unfold step start : FutureList σ ε α).Gives place ((unfold step start).Finds place) last []
      ending) :
    (unfold step start : FutureList σ ε α).Gives place ((unfold step start).Finds place) seed values
      ending := by
  induction steps with
  | here => exact gives
  | @more seed next last value values stepped _ ih =>
    have found : (unfold step start : FutureList σ ε α).Finds place seed (.ok (step seed)) :=
      finds_unfold hospitable start seed
    rw [stepped] at found
    exact .cons found (forces_succeed hospitable value) (ih gives)

theorem Unfolds.denotes (hospitable : Hospitable place) {seed : ι} {denoted : Meaning ε α}
    (unfolds : Unfolds step seed denoted) : (unfold step seed : FutureList σ ε α).Denotes place denoted := by
  cases denoted with
  | finite values ending =>
    obtain ⟨rfl, last, steps, ended⟩ := unfolds
    have found : (unfold step seed : FutureList σ ε α).Finds place last (.ok (step last)) :=
      finds_unfold hospitable seed last
    rw [ended] at found
    exact steps.gives hospitable (.nil found)
  | infinite values =>
    intro count
    obtain ⟨last, steps⟩ := unfolds count
    have paused : (unfold step seed : FutureList σ ε α).Gives place ((unfold step seed).Finds place) last []
        none := by constructor
    exact steps.gives hospitable paused

theorem steps_uncons (values : List α) : Steps uncons values values [] := by
  induction values with
  | nil => exact .here []
  | cons value rest ih => exact .more rfl ih

theorem Steps.snoc {seed last next : ι} {value : α} {values : List α} (steps : Steps step seed values last)
    (stepped : step last = some (value, next)) : Steps step seed (values ++ [value]) next := by
  induction steps with
  | here => exact .more stepped (.here next)
  | more stepped' _ ih => exact .more stepped' (ih stepped)

theorem exists_unfolds (step : ι → Option (α × ι)) (seed : ι) :
    ∃ denoted : Meaning ε α, Unfolds step seed denoted := by
  by_cases ends : ∃ values last, Steps step seed values last ∧ step last = none
  · obtain ⟨values, last, steps, ended⟩ := ends
    exact ⟨.finite values .nil, rfl, last, steps, ended⟩
  · have goes (state : ι) (reached : ∃ values, Steps step seed values state) :
        ∃ stepped, step state = some stepped := by
      obtain ⟨values, steps⟩ := reached
      exact Option.ne_none_iff_exists'.mp fun ended => ends ⟨values, state, steps, ended⟩
    choose stepped made using fun state : { state // ∃ values, Steps step seed values state } =>
      goes state state.2
    -- Each step leaves a seed that is reached too, hence can be stepped from again.
    let next (state : { state // ∃ values, Steps step seed values state }) :
        { state // ∃ values, Steps step seed values state } :=
      ⟨(stepped state).2, state.2.elim fun _ steps => ⟨_, steps.snoc (made state)⟩⟩
    let states (count : Nat) := next^[count] ⟨seed, [], .here seed⟩
    have all (count : Nat) :
        Steps step seed (firsts (fun index => (stepped (states index)).1) count) (states count).1 := by
      induction count with
      | zero => exact .here seed
      | succ count ih =>
        rw [firsts, List.range_succ, List.map_append]
        have behind : states (count + 1) = next (states count) := Function.iterate_succ_apply' ..
        rw [behind]
        exact ih.snoc (made (states count))
    exact ⟨.infinite _, fun count => ⟨_, all count⟩⟩

theorem denotes_ofValues (hospitable : Hospitable place) (values : List α) :
    (ofValues values : FutureList σ ε α).Denotes place (.finite values .nil) :=
  Unfolds.denotes hospitable ⟨rfl, [], steps_uncons values, rfl⟩

end Unfold

section

variable {α : Type u} {left right list : FutureList.{u, v} σ ε α} {denoted denoted' : Meaning ε α}
  {state : list.State} {values : List α} {ending : Option (Ending ε)}

theorem simulates_behind_head (head : Future σ ε α) :
    Simulates place list (cons head list) ((cons head list).Finds place) some
      fun state state' => state' = some state where
  found := by
    rintro _ _ _ rfl found
    exact found.relabel (Option.map some)
  fault := by
    rintro _ _ _ rfl found
    exact found.relabel (Option.map (some (α := list.Cell)))
  head _ := rfl
  tail _ := rfl

theorem Denotes.cons {head : Future σ ε α} {value : α} (hospitable : Hospitable place)
    (shown : Forces place (fun _ => head) (.ok value)) (denotes : list.Denotes place denoted) :
    (cons head list).Denotes place (denoted.behind [value]) := by
  refine denotes_behind fun values ending shows => ?_
  have behind : (FutureList.cons head list).Gives place ((FutureList.cons head list).Finds place)
      (some list.start) values ending := by
    refine (simulates_behind_head head).gives ?_ rfl (denotes.shows shows)
    rintro _ _ rfl found
    exact found.relabel (Option.map some)
  exact .cons (forces_succeed hospitable (some none)) shown behind

theorem denotes_cons_fault {head : Future σ ε α} {fault : Fault ε} (hospitable : Hospitable place)
    (shown : Forces place (fun _ => head) (.error fault)) :
    (cons head list).Denotes place (.finite [] (.fault fault)) :=
  .member (forces_succeed hospitable (some none)) shown

theorem denotes_nil (hospitable : Hospitable place) :
    (nil : FutureList.{u, v} σ ε α).Denotes place (.finite [] .nil) :=
  .nil (forces_succeed hospitable none)

theorem denotes_singleton (hospitable : Hospitable place) (value : α) :
    (singleton value : FutureList.{u, v} σ ε α).Denotes place (.finite [value] .nil) :=
  (denotes_nil hospitable).cons hospitable (forces_succeed hospitable value)

theorem simulates_left (hospitable : Hospitable place) :
    Simulates place left (left.append right) ((left.append right).Finds place) .inl
      fun state state' => state' = .inl state where
  found := by
    rintro _ _ _ rfl found
    exact found.bind hospitable (forces_succeed hospitable _)
  fault := by
    rintro _ _ _ rfl found
    exact found.bind_fault hospitable _
  head _ := rfl
  tail _ := rfl

def Continues (place : κ → Nat → Loop σ → Prop) (left right : FutureList.{u, v} σ ε α) (state : right.State) :
    (left.append right).State → Prop
  | .inl last => state = right.start ∧ left.Finds place last (.ok none)
  | .inr state' => state' = state

theorem Continues.finds (hospitable : Hospitable place) {state : right.State} {state' : (left.append right).State}
    {found : Except (Fault ε) (Option right.Cell)} (continues : Continues place left right state state')
    (finds : right.Finds place state found) :
    (left.append right).Finds place state' (found.map (Option.map .inr)) := by
  cases state' with
  | inl last =>
    obtain ⟨rfl, ended⟩ := continues
    exact ended.bind hospitable (finds.relabel (Option.map Sum.inr))
  | inr state' =>
    obtain rfl := continues
    exact finds.relabel (Option.map Sum.inr)

theorem simulates_right (hospitable : Hospitable place) :
    Simulates place right (left.append right) ((left.append right).Finds place) .inr
      (Continues place left right) where
  found continues found := continues.finds hospitable found
  fault continues found := continues.finds hospitable found
  head _ := rfl
  tail _ := rfl

theorem Denotes.append (hospitable : Hospitable place) (denotes : left.Denotes place denoted)
    (denotes' : ∀ values, denoted = .finite values .nil → right.Denotes place denoted') :
    (left.append right).Denotes place (denoted.append denoted') := by
  have simulates : Simulates place left (left.append right) ((left.append right).Finds place) .inl
      fun state state' => state' = .inl state := simulates_left hospitable
  cases denoted with
  | infinite values => exact fun count => simulates.unended rfl (denotes count) nofun
  | finite values ending =>
    cases ending with
    | fault fault => exact simulates.unended rfl denotes nofun
    | nil =>
      refine denotes_behind fun more ending shows => simulates.across rfl denotes ?_
      rintro last _ rfl ended
      have continues : Continues place left right right.start (.inl last) := ⟨rfl, ended⟩
      refine (simulates_right hospitable).gives ?_ continues ((denotes' values rfl).shows shows)
      exact fun _ _ there found => there.finds hospitable found

theorem Gives.map {β : Type v} (hospitable : Hospitable place) (f : α → β)
    (gives : list.Gives place (list.Finds place) state values ending) :
    (list.map f).Gives place ((list.map f).Finds place) state (values.map f) ending := by
  induction gives with
  | pause state => exact .pause _
  | nil found => exact .nil (found.bind hospitable (forces_succeed hospitable none))
  | cell found => exact .cell (found.bind_fault hospitable _)
  | member found shown => exact .cell (found.bind hospitable (shown.bind_fault hospitable _))
  | @cons state cell value values _ found shown _ ih =>
    have changed : (list.map f).Finds place state (.ok (some (f value, list.tail cell))) :=
      found.bind hospitable (shown.bind hospitable (forces_succeed hospitable _))
    exact .cons changed (forces_succeed hospitable (f value)) ih

theorem Denotes.map {β : Type v} (hospitable : Hospitable place) (f : α → β)
    (denotes : list.Denotes place denoted) : (list.map f).Denotes place (denoted.map f) := by
  cases denoted with
  | finite values ending => exact Gives.map hospitable f denotes
  | infinite values =>
    intro count
    have gives := (denotes count).map hospitable f
    rwa [Meaning.firsts, List.map_map] at gives

/-- Behind the members that are taken nothing is asked for, whatever stands there. -/
theorem Gives.take_enough (hospitable : Hospitable place) {whole count : Nat}
    (gives : list.Gives place (list.Finds place) state values ending) (enough : count ≤ values.length) :
    (list.take whole).Gives place ((list.take whole).Finds place) (count, state) (values.take count)
      (some .nil) := by
  induction gives generalizing count with
  | pause | nil | cell | member =>
    obtain rfl := Nat.le_zero.mp enough
    exact .nil (forces_succeed hospitable none)
  | cons found shown _ ih =>
    cases count with
    | zero => exact .nil (forces_succeed hospitable none)
    | succ count =>
      exact .cons (found.map hospitable (Option.map fun cell => (cell, count))) shown
        (ih (Nat.le_of_succ_le_succ enough))

theorem Gives.take_short (hospitable : Hospitable place) {whole count : Nat}
    (gives : list.Gives place (list.Finds place) state values ending) (short : values.length < count) :
    (list.take whole).Gives place ((list.take whole).Finds place) (count, state) values ending := by
  induction gives generalizing count with
  | pause state => exact .pause _
  | nil found | cell found =>
    obtain ⟨count, rfl⟩ := Nat.exists_eq_add_of_lt short
    have taken := found.map hospitable (Option.map fun cell => (cell, 0 + count))
    constructor
    exact taken
  | member found shown =>
    obtain ⟨count, rfl⟩ := Nat.exists_eq_add_of_lt short
    exact .member (found.map hospitable (Option.map fun cell => (cell, 0 + count))) shown
  | cons found shown _ ih =>
    cases count with
    | zero => exact absurd short (Nat.not_lt_zero _)
    | succ count =>
      exact .cons (found.map hospitable (Option.map fun cell => (cell, count))) shown
        (ih (Nat.lt_of_succ_lt_succ short))

theorem Gives.take {values : List α} {ending : Option (Ending ε)} (hospitable : Hospitable place)
    (gives : list.Gives place (list.Finds place) list.start values ending) :
    (list.take values.length).Denotes place (.finite values .nil) := by
  have taken : (list.take values.length).Gives place ((list.take values.length).Finds place)
      (values.length, list.start) (values.take values.length) (some .nil) :=
    gives.take_enough hospitable (le_refl _)
  rwa [List.take_length] at taken

theorem Denotes.take (hospitable : Hospitable place) (count : Nat) (denotes : list.Denotes place denoted) :
    (list.take count).Denotes place (denoted.take count) := by
  cases denoted with
  | finite values ending =>
    rw [Meaning.take]
    split
    next enough => exact Gives.take_enough hospitable denotes enough
    next short => exact Gives.take_short hospitable denotes (Nat.not_le.mp short)
  | infinite values =>
    have taken := Gives.take hospitable (denotes count)
    rwa [Meaning.length_firsts] at taken

theorem Gives.toListFrom {end' : Ending ε} (hospitable : Hospitable place)
    (gives : list.Gives place (list.Finds place) state values (some end')) (seen : List α) :
    Forces place (fun bound => list.toListFrom bound seen state)
      (end'.collected (seen.reverse ++ values)) := by
  generalize ended : some end' = ending at gives
  induction gives generalizing seen with
  | pause => cases ended
  | nil found =>
    obtain rfl := Option.some.inj ended
    rw [List.append_nil]
    exact (found.bind hospitable (forces_succeed hospitable seen.reverse)).succ
  | cell found =>
    obtain rfl := Option.some.inj ended
    exact (found.bind_fault hospitable _).succ
  | member found shown =>
    obtain rfl := Option.some.inj ended
    exact (found.bind hospitable (shown.bind_fault hospitable _)).succ
  | @cons state cell value values _ found shown rest ih =>
    have more := ih (value :: seen) ended
    rw [List.reverse_cons, List.append_assoc, List.singleton_append] at more
    exact (found.bind hospitable (shown.bind hospitable more)).succ

theorem Denotes.toList {values : List α} {ending : Ending ε} (hospitable : Hospitable place)
    (denotes : list.Denotes place (.finite values ending)) :
    Future.Forces place (fun _ => list.toList) (ending.collected values) :=
  Future.Forces.bounded (Gives.toListFrom hospitable denotes [])

end

/-- What the operations on lists make of what the lists denote.

* The list of given values denotes them and the empty list behind them, and an unfolded list denotes what its step
  makes of the seed.
* Appending puts the second list in the place of the empty list at the end of the first one. If the first list
  does not end so then the second one may be any.
* A function that is mapped over a list changes the values, and leaves the end as it is.
* A replacement of the values by lists goes on to the first list that does not end with the empty list, and
  flattening does so with the members themselves. They denote something except if they search for ever.
* Taking some members gives these and the empty list behind them, or the whole list if it is shorter.
* Waiting for all values of a list that ends gives them, or the first error, or nothing if something has dropped
  its continuation. -/
theorem operations_denote (hospitable : Hospitable place) :
    (∀ {α : Type v} (values : List α),
      (ofValues values : FutureList σ ε α).Denotes place (.finite values .nil)) ∧
    (∀ {ι α : Type v} (step : ι → Option (α × ι)) (seed : ι),
      ∃ denoted, Unfolds step seed denoted ∧ (unfold step seed : FutureList σ ε α).Denotes place denoted) ∧
    (∀ {α : Type u} (left right : FutureList.{u, v} σ ε α) (denoted denoted' : Meaning ε α),
      left.Denotes place denoted → (∀ values, denoted = .finite values .nil → right.Denotes place denoted') →
        (left.append right).Denotes place (denoted.append denoted')) ∧
    (∀ {α : Type u} {β : Type v} (f : α → β) (list : FutureList.{u, v} σ ε α) (denoted : Meaning ε α),
      list.Denotes place denoted → (list.map f).Denotes place (denoted.map f)) ∧
    (∀ {α : Type v} {β : Type w} (f : α → FutureList.{w, z} σ ε β) (list : FutureList.{v, u} σ ε α)
        (denoted : Meaning ε α), list.Denotes place denoted →
      (∀ result, denoted.Flattens (fun value => (f value).Denotes place) result →
        (list.flatMap f).Denotes place result) ∧
      ((∀ value, denoted.Has value → ∃ replaced, (f value).Denotes place replaced) →
        (∃ result, denoted.Flattens (fun value => (f value).Denotes place) result) ∨
          denoted.Idles fun value => (f value).Denotes place)) ∧
    (∀ {α : Type u} (lists : FutureList.{max u (v + 1), w} σ ε (FutureList.{u, v} σ ε α))
        (denoted : Meaning ε (FutureList.{u, v} σ ε α)), lists.Denotes place denoted →
      (∀ result, denoted.Flattens (fun list => list.Denotes place) result →
        lists.flatten.Denotes place result) ∧
      ((∀ list, denoted.Has list → ∃ replaced, list.Denotes place replaced) →
        (∃ result, denoted.Flattens (fun list => list.Denotes place) result) ∨
          denoted.Idles fun list => list.Denotes place)) ∧
    (∀ {α : Type u} (count : Nat) (list : FutureList.{u, v} σ ε α) (denoted : Meaning ε α),
      list.Denotes place denoted → (list.take count).Denotes place (denoted.take count)) ∧
    (∀ {α : Type} [Storable (Except ε (List α)) σ] (list : FutureList.{0, v} σ ε α) (values : List α)
        (ending : Ending ε), list.Denotes place (.finite values ending) → ∀ sort, ∃ least sort',
      ∀ loop : Loop σ, place sort loop.groups.size (loop.gather (.ofSize 1)) →
        ∀ bound ≥ least, ∃ ran later groups, place sort' loop.groups.size later ∧
          loop.waitFor bound list.toList =
            some ⟨Fault.outcome? (ending.collected values), ran, { later with groups }⟩) := by
  refine ⟨denotes_ofValues hospitable, ?unfold, ?append, ?map, ?flatMap, ?flatten, ?take, ?collect⟩
  case unfold =>
    intro ι α step seed
    obtain ⟨denoted, unfolds⟩ := exists_unfolds (ε := ε) step seed
    exact ⟨denoted, unfolds, unfolds.denotes hospitable⟩
  case append => exact fun _ _ _ _ denotes denotes' => denotes.append hospitable denotes'
  case map => exact fun f _ _ denotes => denotes.map hospitable f
  case flatMap =>
    exact fun _ _ _ denotes => ⟨fun _ flattens => denotes.flatMap hospitable flattens, Meaning.exists_flattens⟩
  case flatten =>
    exact fun _ _ denotes => ⟨fun _ flattens => denotes.flatMap hospitable flattens, Meaning.exists_flattens⟩
  case take => exact fun count _ _ denotes => denotes.take hospitable count
  case collect =>
    exact fun _ _ _ denotes sort => Future.ComesTo.waitFor hospitable (denotes.toList hospitable) sort

def stuckBehindTwo : FutureList.{0, 0} (Except String (List Nat)) String Nat :=
  (ofValues [1]).append (cons (.succeedAfter 2 10) (cons .never nil))

/-- Each value is doubled, but of the doubled values only three are asked for. -/
theorem operations_denote_doubled :
    ∃ least, ∀ bound ≥ least, ∃ ran after,
      ({} : Loop (Except String (List Nat))).waitFor bound
        ((stuckBehindTwo.flatMap fun value => ofValues [value, value]).take 3).toList =
          some ⟨some (.ok [1, 1, 2]), ran, after⟩ := by
  obtain ⟨given, -, appended, -, replaced, -, taken, collected⟩ :=
    operations_denote.{0, 0, 0, 0} (σ := Except String (List Nat)) (ε := String) Loop.hospitable_awaits
  have stops : (cons .never nil : FutureList.{0, 0} (Except String (List Nat)) String Nat).Denotes
      Loop.Awaiting (.finite [] (.fault .stuck)) :=
    denotes_cons_fault Loop.hospitable_awaits Future.forces_never
  have late := stops.cons Loop.hospitable_awaits (Future.comesTo_settledAfter (.ok 2) 10)
  have both : stuckBehindTwo.Denotes Loop.Awaiting (.finite [1, 2] (.fault .stuck)) :=
    appended _ _ _ _ (given [1]) fun _ _ => late
  have doubled := (replaced (fun value => ofValues [value, value]) _ _ both).1 _
    (.all fun value _ => given [value, value])
  obtain ⟨least, _, waits⟩ := collected _ _ _ (taken 3 _ _ doubled) ()
  refine ⟨least, fun bound enough => ?_⟩
  obtain ⟨ran, later, groups, -, waited⟩ := waits {} ⟨⟨rfl, rfl, rfl⟩, Nat.one_pos, rfl⟩ bound enough
  exact ⟨ran, { later with groups }, waited⟩

end FutureList

end Deferred
