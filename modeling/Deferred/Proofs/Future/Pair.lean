import Deferred.Proofs.Twin.Pair
import Deferred.Proofs.Twin.Discreet
import Deferred.Proofs.Future.Dual

/-! A pair of two futures of one type does what the list of both does, although it keeps their values in its own
way. Both hand on the same as the outcomes come, and nobody else on the loop can tell which of them was run. -/

namespace Deferred

variable {σ ε α : Type} [Storable α σ]

namespace Parallel

def listed (both : α × α) : List α :=
  [both.1, both.2]

def PairHandsOn (outcomes : List (Except ε α)) (order : List Nat)
    (handed : Nat → Option (Except ε (α × α))) : Prop :=
  (∀ (first second : Future σ ε α) (next : Except ε (α × α) → Script σ), (zip first second).run next =
    .gather (.ofSize 2) fun group => startAll (pairArrival next group) 0 [first, second]) ∧
  ∃ contents : Nat → Group σ, contents 0 = .ofSize 2 ∧
    ∀ (count index : Nat) (outcome : Except ε α), order[count]? = some index →
      outcomes[index]? = some outcome → ∀ (next : Except ε (α × α) → Script σ) (group : Nat),
        (pairArrival next group index outcome).HandsOn next group (contents count) (contents (count + 1))
          (handed count)

section Arrival

variable {next : Except ε (α × α) → Script σ} {group index : Nat} {content : Group σ} {value : α}

theorem pair_waits (alone : (bothValues (content.fill index (store value)) : Option (α × α)) = none) :
    (pairArrival next group index (.ok value)).HandsOn next group content (content.fill index (store value))
      none :=
  .nothing .done .done (alters_half alone).changes

theorem pair_completes {both : α × α} (complete : bothValues (content.fill index (store value)) = some both)
    (unsettled : content.settled = false) :
    (pairArrival next group index (.ok value)).HandsOn next group content
      (Group.settle { content.fill index (store value) with slots := [none, none] }) (some (.ok both)) :=
  .outcome _ .done .done (alters_pair complete unsettled).changes

theorem pair_fails {error : ε} (unsettled : content.settled = false) :
    (pairArrival next group index (.error error : Except ε α)).HandsOn next group content content.settle
      (some (.error error)) := by
  simp only [pairArrival]
  exact .outcome _ .done .done (changes_unsettled unsettled)

theorem pair_late {error : ε} (settled : content.settled = true) :
    (pairArrival next group index (.error error : Except ε α)).HandsOn next group content content none := by
  simp only [pairArrival]
  exact .nothing .done .done (changes_settled settled)

end Arrival

theorem bothValues_single {index : Nat} (inside : index < 2) (settled : Bool) (stored : σ) :
    (bothValues (Group.fill { Group.ofSize 2 with settled } index stored) : Option (α × α)) = none := by
  obtain rfl | rfl : index = 0 ∨ index = 1 := by omega
  · rfl
  · rfl

section Order

variable {order : List Nat} {outcomes : List (Except ε α)} {handed : Nat → Option (Except ε (α × α))}

theorem order_of_two (every : order.Perm (List.range 2)) :
    ∃ first second, order = [first, second] ∧ (first = 0 ∧ second = 1 ∨ first = 1 ∧ second = 0) := by
  obtain ⟨first, second, rfl⟩ := List.length_eq_two.mp every.length_eq
  have came : [first, second][0]? = some first := rfl
  have came' : [first, second][1]? = some second := rfl
  have inside := lt_of_arrival every came
  have inside' := lt_of_arrival every came'
  have different := notMem_take_of_arrival every came'
  simp only [List.take_succ_cons, List.take_zero, List.mem_singleton] at different
  exact ⟨first, second, rfl, by omega⟩

theorem pairHandsOn_of_two {first second : Nat} {outcome outcome' : Except ε α}
    (found : outcomes[first]? = some outcome) (found' : outcomes[second]? = some outcome')
    {middle last : Group σ}
    (one : ∀ next group, (pairArrival next group first outcome).HandsOn next group (.ofSize 2) middle (handed 0))
    (two : ∀ next group, (pairArrival next group second outcome').HandsOn next group middle last (handed 1)) :
    PairHandsOn (σ := σ) outcomes [first, second] handed := by
  let contents : Nat → Group σ
    | 0 => .ofSize 2
    | 1 => middle
    | _ => last
  refine ⟨run_zip, contents, rfl, fun count index arrived came same => ?_⟩
  rcases count with _ | _ | count
  · obtain rfl := Option.some.inj came
    obtain rfl := Option.some.inj (found.symm.trans same)
    exact one
  · obtain rfl := Option.some.inj came
    obtain rfl := Option.some.inj (found'.symm.trans same)
    exact two
  · simp at came

theorem pairHandsOn_of_values (every : order.Perm (List.range 2)) (value other : α) :
    PairHandsOn (ε := ε) (σ := σ) [.ok value, .ok other] order
      (fun count => if count = 1 then some (.ok (value, other)) else none) := by
  obtain ⟨first, second, rfl, ⟨rfl, rfl⟩ | ⟨rfl, rfl⟩⟩ := order_of_two every
  · exact pairHandsOn_of_two rfl rfl (fun _ _ => pair_waits (bothValues_single Nat.zero_lt_two false _))
      fun _ _ => pair_completes (by simp [bothValues, Group.fill, Group.ofSize]) rfl
  · exact pairHandsOn_of_two rfl rfl (fun _ _ => pair_waits (bothValues_single Nat.one_lt_two false _))
      fun _ _ => pair_completes (by simp [bothValues, Group.fill, Group.ofSize]) rfl

theorem pairHandsOn_of_failure (two : outcomes.length = 2) (every : order.Perm (List.range 2)) {time index : Nat}
    {error : ε} (came : order[time]? = some index) (failed : outcomes[index]? = some (.error error))
    (earliest : ∀ earlier < time, ∀ index error, order[earlier]? = some index →
      outcomes[index]? ≠ some (.error error)) :
    PairHandsOn (σ := σ) outcomes order (fun count => if count = time then some (.error error) else none) := by
  obtain ⟨first, second, rfl, different⟩ := order_of_two every
  have inside : first < 2 := by omega
  have inside' : second < 2 := by omega
  have found : outcomes[first]? = some outcomes[first] := List.getElem?_eq_getElem (two ▸ inside)
  have found' : outcomes[second]? = some outcomes[second] := List.getElem?_eq_getElem (two ▸ inside')
  rcases time with _ | _ | time
  · obtain rfl := Option.some.inj came
    generalize outcomes[second] = late at found'
    cases late with
    | ok value =>
      exact pairHandsOn_of_two failed found' (fun _ _ => pair_fails rfl)
        fun _ _ => pair_waits (bothValues_single inside' true _)
    | error other =>
      exact pairHandsOn_of_two failed found' (fun _ _ => pair_fails rfl) fun _ _ => pair_late rfl
  · obtain rfl := Option.some.inj came
    generalize outcomes[first] = early at found
    cases early with
    | ok value =>
      exact pairHandsOn_of_two found failed (fun _ _ => pair_waits (bothValues_single inside false _))
        fun _ _ => pair_fails rfl
    | error other => exact absurd found (earliest 0 Nat.one_pos first other rfl)
  · simp at came

theorem values_or_first_failure (left right : Except ε α) (every : order.Perm (List.range 2)) :
    (∃ value other, left = .ok value ∧ right = .ok other) ∨
    ∃ time < 2, ∃ index error, order[time]? = some index ∧ [left, right][index]? = some (.error error) ∧
      ∀ earlier < time, ∀ index error, order[earlier]? = some index →
        [left, right][index]? ≠ some (.error error) := by
  have exchanged : order.Perm (List.range ([left, right].map exchange).length) := every
  rcases errors_or_first_success exchanged with ⟨values, succeeded⟩ | ⟨time, index, error, came, found, earliest⟩
  · have ok_of_mem : ∀ outcome ∈ [left, right], ∃ value, outcome = .ok value := by
      intro outcome member
      have image := List.mem_map_of_mem (f := exchange) member
      rw [succeeded] at image
      obtain ⟨value, -, same⟩ := List.mem_map.mp image
      exact ⟨value, by rw [← exchange_exchange outcome, ← same]; rfl⟩
    obtain ⟨value, rfl⟩ := ok_of_mem left (by simp)
    obtain ⟨other, rfl⟩ := ok_of_mem right (by simp)
    exact .inl ⟨value, other, rfl, rfl⟩
  · refine .inr ⟨time, count_lt_of_arrival every came, index, error, came, getElem?_map_exchange.mp found, ?_⟩
    intro earlier before index error came failed
    exact earliest earlier before index error came (getElem?_map_exchange.mpr failed)

theorem pair_hands_on_as_list (left right : Except ε α) (every : order.Perm (List.range 2)) :
    ∃ time < 2, ∃ result : Except ε (α × α),
      PairHandsOn (σ := σ) [left, right] order (fun count => if count = time then some result else none) ∧
      HandsOnAs (σ := σ) all allArrival keptValue (.ofSize 2) [left, right] order
        (fun count => if count = time then some (result.map listed) else none) ∧
      ((∃ value other, left = .ok value ∧ right = .ok other ∧ time = 1 ∧ result = .ok (value, other)) ∨
        ∃ index error, order[time]? = some index ∧ [left, right][index]? = some (.error error) ∧
          result = .error error ∧ ∀ earlier < time, ∀ index error, order[earlier]? = some index →
            [left, right][index]? ≠ some (.error error)) := by
  have some : [left, right] ≠ [] := List.cons_ne_nil _ _
  rcases values_or_first_failure left right every with
    ⟨value, other, rfl, rfl⟩ | ⟨time, within, index, error, came, failed, earliest⟩
  · have last : ∀ count, count + 1 = [Except.ok value, Except.ok (ε := ε) other].length ↔ count = 1 := by
      intro count
      simp
    have values : [Except.ok value, Except.ok (ε := ε) other] = [value, other].map .ok := rfl
    have course := joint_course_of_values (σ := σ) .allFailed some every values
    simp only [last] at course
    exact ⟨1, Nat.one_lt_two, .ok (value, other), pairHandsOn_of_values every value other,
      handsOnAs_all some course, .inl ⟨value, other, rfl, rfl, rfl, rfl⟩⟩
  · have course := joint_course_of_failure (σ := σ) .allFailed every came failed earliest
    exact ⟨time, within, .error error, pairHandsOn_of_failure rfl every came failed earliest,
      handsOnAs_all some course, .inr ⟨index, error, came, failed, rfl, earliest⟩⟩

end Order

/-- Pairing two futures agrees with waiting for the list of both. In whatever order their outcomes come, something
is handed on just once and at the same arrival: with the second one the values of both, a pair where the other
one hands on a list, or the first failure as it comes. And if either of them is run on the same loop, with any limit
on what may be scheduled and any work waiting there that cannot look into their group, the same jobs are submitted
and started in the same order, also after the outcome has been handed on, whatever `rest` is done after that and
however many turns are made. -/
theorem pair_agrees_with_list {first second : Future σ ε α} {each : Except ε α → Prop}
    (uniform : first.Uniform each) (uniform' : second.Uniform each) :
    (∀ (left right : Except ε α) (order : List Nat), order.Perm (List.range 2) →
      ∃ time < 2, ∃ result : Except ε (α × α),
        PairHandsOn (σ := σ) [left, right] order (fun count => if count = time then some result else none) ∧
        HandsOnAs (σ := σ) all allArrival keptValue (.ofSize 2) [left, right] order
          (fun count => if count = time then some (result.map listed) else none) ∧
        ((∃ value other, left = .ok value ∧ right = .ok other ∧ time = 1 ∧ result = .ok (value, other)) ∨
          ∃ index error, order[time]? = some index ∧ [left, right][index]? = some (.error error) ∧
            result = .error error ∧ ∀ earlier < time, ∀ index error, order[earlier]? = some index →
              [left, right][index]? ≠ some (.error error))) ∧
    ∀ (rules : List (Rule σ)) (loop : Loop σ), loop.Uniform rules →
      ∀ next : Except ε (List α) → Script σ,
        (∀ value other, each (.ok value) → each (.ok other) → (next (.ok [value, other])).Uniform rules) →
        (∀ error, each (.error error) → (next (.error error)).Uniform rules) →
        ∀ rest : Script σ, rest.Uniform rules →
          loop.ActAlike (((zip first second).run fun outcome => next (outcome.map listed)).andThen rest)
            (((all [first, second]).run next).andThen rest) := by
  refine ⟨fun left right order every => pair_hands_on_as_list left right every, ?_⟩
  intro rules loop waiting next succeeds fails rest after
  have twin : Twin rules 0 ((zip first second).run fun outcome => next (outcome.map listed))
      ((all [first, second]).run next) :=
    twin_zip_all uniform uniform' (fun later extended value other may may' =>
      (succeeds value other may may').extend extended) fun later extended error may =>
        (fails error may).extend extended
  have both := twin.andThen after
  rw [add_zero] at both
  exact waiting.actAlike both

def noteOutcome [Shown ε] [Shown α] (outcome : Except ε α) : Script σ :=
  .record (.note (shown outcome)) .done

/-- One of two futures succeeds at once and the other one later, on a loop where a job of low priority waits and
every other scheduled job is diverted. -/
theorem pair_agrees_with_list_delayed :
    (∃ time < 2, ∃ result : Except String (Nat × Nat),
      PairHandsOn (σ := Nat) [.ok 1, .ok 2] [1, 0] (fun count => if count = time then some result else none)) ∧
    (({ config := ⟨0⟩ } : Loop Nat).submit .yielded fun _ => .done).ActAlike
      (((zip (.succeed 1) (.succeedAfter 2 5) : Future Nat String (Nat × Nat)).run fun outcome =>
        noteOutcome (outcome.map listed)).andThen (.drain fun _ => .done))
      (((all [.succeed 1, .succeedAfter 2 5] : Future Nat String (List Nat)).run noteOutcome).andThen
        (.drain fun _ => .done)) ∧
    ∃ after, (({ config := ⟨0⟩ } : Loop Nat).submit .yielded fun _ => .done).perform 9
      (((all [.succeed 1, .succeedAfter 2 5] : Future Nat String (List Nat)).run noteOutcome).andThen
        (.drain fun _ => .done)) = some after ∧ (5, .note "Ok([1, 2])") ∈ after.journal := by
  let first : Future Nat String Nat := .succeed 1
  let second : Future Nat String Nat := .succeedAfter 2 5
  have uniform : first.Uniform fun _ => True := .settled trivial
  have uniform' : second.Uniform fun _ => True := .settledAfter 5 trivial
  have notes : ∀ outcome : Except String (List Nat), (noteOutcome outcome : Script Nat).Uniform [] :=
    fun _ => .record .done
  have drains : (.drain fun _ => .done : Script Nat).Uniform [] := .drain fun _ _ _ => .done
  have waiting : (({ config := ⟨0⟩ } : Loop Nat).submit .yielded fun _ => .done).Uniform [] :=
    (Loop.discreet_fresh _).uniform.submit .yielded .done
  obtain ⟨arrives, acts⟩ := pair_agrees_with_list uniform uniform'
  obtain ⟨time, within, result, pair, -⟩ := arrives (.ok 1) (.ok 2) [1, 0] (by decide)
  refine ⟨⟨time, within, result, pair⟩,
    acts [] _ waiting noteOutcome (fun _ _ _ _ => notes _) (fun _ _ => notes _) _ drains, _, rfl, ?_⟩
  decide

end Parallel

end Deferred
