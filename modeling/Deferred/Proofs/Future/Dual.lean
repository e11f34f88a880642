import Deferred.Proofs.Future.AnyOrder

/-! The duality of waiting for all successes and for one. Success and failure change places: an error fills a
slot where a value did, and a success settles the group where a failure did. The same script does both, apart
from the event that it notes. A race takes whatever comes first and ignores the rest. -/

namespace Deferred

variable {σ ε ε' α β γ : Type}

def exchange : Except ε α → Except α ε
  | .ok value => .error value
  | .error error => .ok error

theorem exchange_exchange (outcome : Except ε α) : exchange (exchange outcome) = outcome := by
  cases outcome <;> rfl

theorem getElem?_map_exchange {outcomes : List (Except ε α)} {index : Nat} {outcome : Except α ε} :
    (outcomes.map exchange)[index]? = some outcome ↔ outcomes[index]? = some (exchange outcome) := by
  rw [List.getElem?_map, Option.map_eq_some_iff]
  constructor
  · rintro ⟨original, found, rfl⟩
    rwa [exchange_exchange]
  · exact fun found => ⟨_, found, exchange_exchange outcome⟩

def Future.exchanged (future : Future σ ε α) : Future σ α ε :=
  ⟨fun next => future.run fun outcome => next (exchange outcome)⟩

theorem Script.Quiet.record (event : Event) : (.record event .done : Script σ).Quiet :=
  fun _ loop => ⟨(loop.record event).journal, rfl⟩

namespace Parallel

def exchangedBack : Except α (List ε) → Except (NoWinner ε) α
  | .ok errors => .error (.allFailed errors)
  | .error value => .ok value

def keptError [Storable ε σ] (outcome : Except ε α) : Option σ :=
  keptValue (exchange outcome)

def allNoting [Storable α σ] (event : Nat → Event) (futures : List (Future σ ε α)) :
    Future σ ε (List α) :=
  together (.ok []) (jointArrival event) futures

theorem all_eq_allNoting [Storable α σ] (futures : List (Future σ ε α)) :
    all futures = allNoting .allFailed futures := by
  rw [all, allArrival_eq]
  rfl

theorem anyArrival_eq_jointArrival [Storable ε σ] :
    (anyArrival : (Except (NoWinner ε) α → Script σ) → Nat → Nat → Except ε α → Script σ) =
      fun next group index outcome =>
        jointArrival .anySucceeded (fun result => next (exchangedBack result)) group index
          (exchange outcome) := by
  funext next group index outcome
  cases outcome with
  | ok value => rfl
  | error error => rfl

theorem startAll_exchanged (arrive : Nat → Except α ε → Script σ) (start : Nat)
    (futures : List (Future σ ε α)) :
    startAll arrive start (futures.map Future.exchanged) =
      startAll (fun index outcome => arrive index (exchange outcome)) start futures := by
  induction futures generalizing start with
  | nil => rfl
  | cons future futures ih =>
    rw [List.map_cons, startAll, startAll, ih]
    rfl

theorem any_eq_allNoting [Storable ε σ] {futures : List (Future σ ε α)} (nonempty : futures ≠ []) :
    any futures = ⟨fun next => (allNoting .anySucceeded (futures.map Future.exchanged)).run fun result =>
      next (exchangedBack result)⟩ := by
  have exchanged : futures.map Future.exchanged ≠ [] := by simpa using nonempty
  rw [any, together_of_ne_nil nonempty, allNoting, together_of_ne_nil exchanged, List.length_map]
  refine congrArg Future.mk (funext fun next => ?_)
  simp only [sideBySide, startAll_exchanged, anyArrival_eq_jointArrival]

section Course

variable {order : List Nat} {handed : Nat → Option (Except ε' γ)} {contents : Nat → Group σ}

theorem Course.rename {ζ δ η : Type}
    {arrival : (Except ε' γ → Script σ) → Nat → Nat → Except ε α → Script σ}
    {kept : Except ε α → Option σ} {initial : Group σ} {outcomes : List (Except ζ δ)}
    (into : Except ζ δ → Except ε α) (back : Except ε' γ → Except η β)
    (course : Course arrival kept initial (outcomes.map into) order handed contents) :
    Course (fun next group index outcome =>
        arrival (fun result => next (back result)) group index (into outcome))
      (fun outcome => kept (into outcome)) initial outcomes order (fun count => (handed count).map back)
      contents := by
  have renamed : ∀ {index : Nat} {outcome : Except ζ δ}, outcomes[index]? = some outcome →
      (outcomes.map into)[index]? = some (into outcome) := by
    intro index outcome found
    rw [List.getElem?_map, found, Option.map_some]
  constructor
  case starts => exact course.starts
  case counted => exact course.counted
  case receives => exact fun count index outcome came found =>
    course.receives count index (into outcome) came (renamed found)
  case handsOn =>
    intro count index outcome came found next group
    have hands := course.handsOn count index (into outcome) came (renamed found)
      (fun result => next (back result)) group
    generalize handed count = result at hands ⊢
    cases hands with
    | nothing rest quiet changes => exact .nothing rest quiet changes
    | outcome result rest quiet changes => exact .outcome (back result) rest quiet changes

end Course

theorem errors_or_first_success {outcomes : List (Except ε α)} {order : List Nat}
    (every : order.Perm (List.range outcomes.length)) :
    (∃ errors : List ε, outcomes = errors.map .error) ∨
    ∃ (first index : Nat) (value : α), order[first]? = some index ∧
      outcomes[index]? = some (.ok value) ∧
      ∀ earlier < first, ∀ (index : Nat) (value : α), order[earlier]? = some index →
        outcomes[index]? ≠ some (.ok value) := by
  classical
  by_cases succeeds : ∃ (count index : Nat) (value : α), order[count]? = some index ∧
      outcomes[index]? = some (.ok value)
  · obtain ⟨index, value, came, succeeded⟩ := Nat.find_spec succeeds
    refine .inr ⟨Nat.find succeeds, index, value, came, succeeded, ?_⟩
    exact fun earlier before index value came found =>
      Nat.find_min succeeds before ⟨index, value, came, found⟩
  · have failed : ∀ outcome ∈ outcomes, ∃ error, .error error = outcome := by
      intro outcome member
      obtain ⟨index, found⟩ := List.mem_iff_getElem?.mp member
      have inside := (List.getElem?_eq_some_iff.mp found).1
      obtain ⟨count, came⟩ := List.mem_iff_getElem?.mp (every.mem_iff.mpr (List.mem_range.mpr inside))
      cases outcome with
      | ok value => exact absurd ⟨count, index, value, came, found⟩ succeeds
      | error error => exact ⟨error, rfl⟩
    have listed : outcomes ∈ Set.range (List.map Except.error) := by
      rw [Set.range_list_map]
      exact failed
    obtain ⟨errors, same⟩ := listed
    exact .inl ⟨errors, same.symm⟩

theorem handsOnAs_all [Storable α σ] {outcomes : List (Except ε α)} (nonempty : outcomes ≠ [])
    {order : List Nat} {handed : Nat → Option (Except ε (List α))}
    (course : ∃ contents : Nat → Group σ,
      Course (jointArrival .allFailed) keptValue (.ofSize outcomes.length) outcomes order handed contents) :
    HandsOnAs (σ := σ) all allArrival keptValue (.ofSize outcomes.length) outcomes order handed := by
  rw [allArrival_eq]
  refine handsOnAs_of_course (fun futures length => ?_) course
  rw [all_eq_allNoting]
  exact together_of_length nonempty futures length

/-- The combinator that needs one success hands on the same of the exchanged outcomes, exchanged back. -/
theorem handsOnAs_dual [Storable ε σ] {outcomes : List (Except ε α)} (nonempty : outcomes ≠ [])
    {order : List Nat} {time : Nat} {result : Except α (List ε)}
    (course : ∀ event : Nat → Event, ∃ contents : Nat → Group σ,
      Course (jointArrival event) keptValue (.ofSize (outcomes.map exchange).length) (outcomes.map exchange)
        order (fun count => if count = time then some result else none) contents) :
    HandsOnAs (σ := σ) all allArrival keptValue (.ofSize outcomes.length) (outcomes.map exchange) order
        (fun count => if count = time then some result else none) ∧
      HandsOnAs (σ := σ) any anyArrival keptError (.ofSize outcomes.length) outcomes order
        (fun count => if count = time then some (exchangedBack result) else none) := by
  constructor
  · have exchanged : outcomes.map exchange ≠ [] := by simpa using nonempty
    have hands := handsOnAs_all exchanged (course .allFailed)
    rwa [List.length_map] at hands
  · refine handsOnAs_of_course (together_of_length nonempty) ?_
    obtain ⟨contents, course⟩ := course .anySucceeded
    rw [List.length_map] at course
    have handed : (fun count => if count = time then some (exchangedBack result) else none) =
        fun count => (if count = time then some result else none).map exchangedBack := by
      funext count
      split <;> rfl
    rw [anyArrival_eq_jointArrival, handed]
    exact ⟨contents, course.rename exchange exchangedBack⟩

section Cases

variable [Storable ε σ] {outcomes : List (Except ε α)} {order : List Nat}

theorem handsOnAs_of_errors (nonempty : outcomes ≠ []) (every : order.Perm (List.range outcomes.length))
    {errors : List ε} (failed : outcomes = errors.map .error) :
    HandsOnAs (σ := σ) all allArrival keptValue (.ofSize outcomes.length) (outcomes.map exchange) order
        (fun count => if count = outcomes.length - 1 then some (.ok errors) else none) ∧
      HandsOnAs (σ := σ) any anyArrival keptError (.ofSize outcomes.length) outcomes order
        (fun count => if count = outcomes.length - 1 then some (.error (.allFailed errors)) else none) := by
  have positive := List.length_pos_iff.mpr nonempty
  have last : ∀ count, count + 1 = (outcomes.map exchange).length ↔ count = outcomes.length - 1 := by
    intro count
    rw [List.length_map]
    omega
  refine handsOnAs_dual nonempty fun event => ?_
  simp only [← last]
  apply joint_course_of_values event (by simpa using nonempty) (by rwa [List.length_map])
  rw [failed, List.map_map]
  rfl

theorem handsOnAs_of_success (nonempty : outcomes ≠ []) (every : order.Perm (List.range outcomes.length))
    {first index : Nat} {value : α} (came : order[first]? = some index)
    (found : outcomes[index]? = some (.ok value))
    (earliest : ∀ earlier < first, ∀ (index : Nat) (value : α), order[earlier]? = some index →
      outcomes[index]? ≠ some (.ok value)) :
    HandsOnAs (σ := σ) all allArrival keptValue (.ofSize outcomes.length) (outcomes.map exchange) order
        (fun count => if count = first then some (.error value) else none) ∧
      HandsOnAs (σ := σ) any anyArrival keptError (.ofSize outcomes.length) outcomes order
        (fun count => if count = first then some (.ok value) else none) := by
  refine handsOnAs_dual nonempty fun event => ?_
  refine joint_course_of_failure event (by rwa [List.length_map]) came ?_ ?_
  · exact getElem?_map_exchange.mpr found
  · intro earlier before index value came found'
    exact earliest earlier before index value came (getElem?_map_exchange.mp found')

end Cases

section Race

variable {next : Except ε α → Script σ} {group index : Nat} {outcome : Except ε α} {content : Group σ}

theorem raceArrival_first (unsettled : content.settled = false) :
    (raceArrival next group index outcome).HandsOn next group content content.settle (some outcome) :=
  .outcome outcome _ (.record _) (changes_unsettled unsettled)

theorem raceArrival_late (settled : content.settled = true) :
    (raceArrival next group index outcome).HandsOn next group content content none :=
  .nothing _ (.record _) (changes_settled settled)

theorem race_course {outcomes : List (Except ε α)} {order : List Nat} (came : order[0]? = some index)
    (found : outcomes[index]? = some outcome) :
    ∃ contents : Nat → Group σ, Course raceArrival (fun _ => none) (.ofSize 0) outcomes order
      (fun count => if count = 0 then some outcome else none) contents := by
  refine ⟨fun count => if count = 0 then .ofSize 0 else (Group.ofSize 0).settle, rfl, fun count => ?_,
    fun count index' outcome' came' found' => ?_, fun count index' outcome' came' found' next group => ?_⟩
  · cases count with
    | zero => rfl
    | succ count => rfl
  · cases count with
    | zero => exact .ends rfl
    | succ count => exact .late rfl
  · cases count with
    | zero =>
      obtain rfl : index = index' := Option.some.inj (came.symm.trans came')
      obtain rfl : outcome = outcome' := Option.some.inj (found.symm.trans found')
      exact raceArrival_first rfl
    | succ count => exact raceArrival_late rfl

end Race

theorem run_mapError (future : Future σ ε α) (f : ε → ε') (next : Except ε' α → Script σ) :
    (future.mapError f).run next =
      .submit .scheduled (fun _ => future.run fun outcome =>
        .submit .scheduled (fun _ => next (outcome.mapError f)) .done) .done := by
  refine congrArg (Script.submit _ · _) (funext fun _ => congrArg future.run (funext fun outcome => ?_))
  cases outcome <;> rfl

/-- Waiting for one success is waiting for all of them with success and failure exchanged, and a race takes the
first arrival. On any futures the two combinators run the same script, apart from the event that notes who
settled the group. In whatever order the outcomes come, something is handed on just once: the first
success to arrive as it comes, or with the last arrival all errors in the order of the futures. The first of the
outcomes to settle is a race of futures whose errors are wrapped; it hands on what comes first, and whatever
comes later hands on nothing. -/
theorem any_dual_and_first_of_arrivals [Storable ε σ] {outcomes : List (Except ε α)}
    (nonempty : outcomes ≠ []) {order : List Nat} (every : order.Perm (List.range outcomes.length)) :
    (∀ futures : List (Future σ ε α), futures ≠ [] →
      any futures = ⟨fun next => (allNoting .anySucceeded (futures.map Future.exchanged)).run fun result =>
          next (exchangedBack result)⟩ ∧
        all (futures.map Future.exchanged) = allNoting .allFailed (futures.map Future.exchanged)) ∧
    (∃ time < outcomes.length, ∃ result : Except α (List ε),
      HandsOnAs (σ := σ) all allArrival keptValue (.ofSize outcomes.length) (outcomes.map exchange) order
        (fun count => if count = time then some result else none) ∧
      HandsOnAs (σ := σ) any anyArrival keptError (.ofSize outcomes.length) outcomes order
        (fun count => if count = time then some (exchangedBack result) else none) ∧
      ((∃ errors : List ε, outcomes = errors.map .error ∧ time + 1 = outcomes.length ∧
          exchangedBack result = .error (.allFailed errors)) ∨
        ∃ (index : Nat) (value : α), order[time]? = some index ∧
          outcomes[index]? = some (.ok value) ∧ exchangedBack result = .ok value ∧
          ∀ earlier < time, ∀ (index : Nat) (value : α), order[earlier]? = some index →
            outcomes[index]? ≠ some (.ok value))) ∧
    (∀ futures : List (Future σ ε α), futures ≠ [] →
      firstSettled futures = race (futures.map (Future.mapError · .failed))) ∧
    (∀ (future : Future σ ε α) (arrive : Except (NoWinner ε) α → Script σ),
      (future.mapError .failed).run arrive = .submit .scheduled (fun _ => future.run fun outcome =>
        .submit .scheduled (fun _ => arrive (outcome.mapError .failed)) .done) .done) ∧
    ∃ (index : Nat) (outcome : Except ε α), order[0]? = some index ∧ outcomes[index]? = some outcome ∧
      HandsOnAs (σ := σ) race raceArrival (fun _ => none) (.ofSize 0)
        (outcomes.map (Except.mapError NoWinner.failed)) order
        (fun count => if count = 0 then some (outcome.mapError .failed) else none) := by
  have positive := List.length_pos_iff.mpr nonempty
  refine ⟨fun futures some => ⟨any_eq_allNoting some, all_eq_allNoting _⟩, ?_,
    fun futures some => firstSettled_of_ne_nil some, fun future arrive => run_mapError future _ arrive, ?_⟩
  · rcases errors_or_first_success every with ⟨errors, failed⟩ | ⟨first, index, value, came, found, earliest⟩
    · obtain ⟨all, any⟩ := handsOnAs_of_errors (σ := σ) nonempty every failed
      have last := Nat.sub_one_add_one_eq_of_pos positive
      exact ⟨outcomes.length - 1, by omega, .ok errors, all, any, .inl ⟨errors, failed, last, rfl⟩⟩
    · obtain ⟨all, any⟩ := handsOnAs_of_success (σ := σ) nonempty every came found earliest
      exact ⟨first, count_lt_of_arrival every came, .error value, all, any,
        .inr ⟨index, value, came, found, rfl, earliest⟩⟩
  · have size : order.length = outcomes.length := by rw [every.length_eq, List.length_range]
    have came : order[0]? = some order[0] := List.getElem?_eq_getElem (size ▸ positive)
    have within : order[0] < outcomes.length := lt_of_arrival every came
    have found : outcomes[order[0]]? = some outcomes[order[0]] := List.getElem?_eq_getElem within
    refine ⟨_, _, came, found, handsOnAs_of_course (fun _ _ => rfl) (race_course came ?_)⟩
    rw [List.getElem?_map, found, Option.map_some]

/-- Of three futures the first one fails before the others succeed, the last of them first. -/
theorem any_dual_and_first_of_arrivals_late_error :
    ([.error "lost", .ok 2, .ok 3] : List (Except String Nat)) ≠ [] ∧ [0, 2, 1].Perm (List.range 3) ∧
      ∃ result : Except Nat (List String),
        HandsOnAs (σ := String) all allArrival keptValue (.ofSize 3) [.ok "lost", .error 2, .error 3] [0, 2, 1]
          (fun count => if count = 1 then some result else none) ∧
        HandsOnAs (σ := String) any anyArrival keptError (.ofSize 3) [.error "lost", .ok 2, .ok 3] [0, 2, 1]
          (fun count => if count = 1 then some (exchangedBack result) else none) ∧
        exchangedBack result = .ok 3 := by
  have every : [0, 2, 1].Perm (List.range 3) := by decide
  have nonempty : ([.error "lost", .ok 2, .ok 3] : List (Except String Nat)) ≠ [] := by simp
  obtain ⟨-, ⟨time, within, result, all, any, settled⟩, -⟩ :=
    any_dual_and_first_of_arrivals (σ := String) nonempty every
  refine ⟨nonempty, every, result, ?_⟩
  rcases settled with ⟨errors, failed, -⟩ | ⟨index, value, came, found, same, earliest⟩
  · cases errors with
    | nil => cases failed
    | cons error errors => cases errors <;> cases failed
  · have second : time = 1 := by
      have notFirst : time ≠ 0 := by
        rintro rfl
        cases came
        cases found
      have notThird : ¬1 < time := fun later => earliest 1 later 2 3 rfl rfl
      omega
    subst second
    cases came
    cases found
    exact ⟨all, any, same⟩

end Parallel

end Deferred
