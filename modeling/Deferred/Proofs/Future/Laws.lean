import Deferred.Proofs.Future.Tied

/-! The laws of a monad. Going on from a future takes jobs of its own, and these count towards the next
periodic yield, so the two sides of a law do not find the queues in the same state. As long as the clock
decides, that makes no difference: both sides come to the same, after the same time. Where a race is tied
it is the order of the queues that decides, and then each of the laws may fail. -/

namespace Deferred.Future

variable {σ ε ε' α β γ : Type}

namespace Decided

variable {first : Future σ ε α} {value : α} {error : ε} {arrival : Arrival ε α} {duration jobs jobs' : Nat}

theorem succeed (value : α) : Decided (.succeed value : Future σ ε α) (some (.ok value, 0)) 1 :=
  .settled _

theorem fail (error : ε) : Decided (.fail error : Future σ ε α) (some (.error error, 0)) 1 :=
  .settled _

theorem never : Decided (.never : Future σ ε α) none 0 :=
  .raw fun _ _ _ lenient => keeps_never lenient

theorem andThen_ok {succeeded : α → Future σ ε' β} {failed : ε → Future σ ε' β} {arrival : Arrival ε' β}
    (decided : Decided first (some (.ok value, duration)) jobs)
    (follows : Decided (succeeded value) arrival jobs') :
    Decided (first.andThen succeeded failed) (arrival.after duration) (1 + jobs + jobs') :=
  .bindOutcome decided follows

theorem andThen_error {succeeded : α → Future σ ε' β} {failed : ε → Future σ ε' β}
    {arrival : Arrival ε' β} (decided : Decided first (some (.error error, duration)) jobs)
    (follows : Decided (failed error) arrival jobs') :
    Decided (first.andThen succeeded failed) (arrival.after duration) (1 + jobs + jobs') :=
  .bindOutcome decided follows

theorem bind_ok {step : α → Future σ ε β} {arrival : Arrival ε β}
    (decided : Decided first (some (.ok value, duration)) jobs)
    (follows : Decided (step value) arrival jobs') :
    Decided (first.bind step) (arrival.after duration) (1 + jobs + jobs') :=
  decided.andThen_ok follows

theorem bind_error {step : α → Future σ ε β}
    (decided : Decided first (some (.error error, duration)) jobs) :
    Decided (first.bind step) (some (.error error, duration)) (1 + jobs + 1) :=
  decided.andThen_error (fail error)

theorem bind_never {step : α → Future σ ε β} (decided : Decided first none jobs) :
    Decided (first.bind step) none (1 + jobs) :=
  .bindNever decided

theorem mapError {f : ε → ε'} (decided : Decided first arrival jobs) :
    Decided (first.mapError f) (arrival.map (Prod.map (Except.mapError f) id))
      (1 + jobs + if arrival.isSome then 1 else 0) := by
  match arrival with
  | none => exact .bindNever decided
  | some (.ok value, duration) => exact decided.andThen_ok (succeed value)
  | some (.error error, duration) =>
    have whole : Decided (first.mapError f) (Arrival.after duration (some (.error (f error), 0))) _ :=
      decided.andThen_error (fail (f error))
    exact whole

theorem timeout {outcome : Except ε α} {time delay : Nat} (decided : Decided first arrival jobs)
    (verdict : Verdict (fun _ => True) [arrival, some (.error error, delay)] outcome time) :
    Decided (first.timeout delay error) (some (outcome, time)) (jobs + 1) := by
  have each : ∀ course ∈ [Course.mk first arrival jobs,
      ⟨.settledAfter (.error error) delay, some (.error error, delay), 1⟩],
        Decided course.future course.arrival course.jobs :=
    List.forall_mem_cons.mpr ⟨decided, List.forall_mem_singleton.mpr (.settledAfter _ delay)⟩
  exact .race each verdict

theorem timeout_early {outcome : Except ε α} {delay : Nat}
    (decided : Decided first (some (outcome, duration)) jobs) (early : duration < delay) :
    Decided (first.timeout delay error) (some (outcome, duration)) (jobs + 1) := by
  refine decided.timeout ⟨List.mem_cons_self .., trivial, fun other later listed _ => ?_⟩
  rcases List.mem_cons.mp listed with same | listed
  · obtain ⟨rfl, rfl⟩ := Prod.mk.inj (Option.some.inj same)
    exact .inr ⟨rfl, rfl⟩
  · obtain ⟨rfl, rfl⟩ := Prod.mk.inj (Option.some.inj (List.mem_singleton.mp listed))
    exact .inl early

theorem timeout_late {delay : Nat} (decided : Decided first arrival jobs)
    (late : ∀ outcome time, arrival = some (outcome, time) → delay < time) :
    Decided (first.timeout delay error) (some (.error error, delay)) (jobs + 1) := by
  refine decided.timeout ⟨List.mem_cons_of_mem _ (List.mem_singleton_self _), trivial,
    fun other later listed _ => ?_⟩
  rcases List.mem_cons.mp listed with same | listed
  · exact .inl (late other later same.symm)
  · obtain ⟨rfl, rfl⟩ := Prod.mk.inj (Option.some.inj (List.mem_singleton.mp listed))
    exact .inr ⟨rfl, rfl⟩

theorem firstSettled {courses : List (Course σ ε α)} {outcome : Except ε α} {time : Nat}
    (decided : ∀ course ∈ courses, Decided course.future course.arrival course.jobs)
    (verdict : Verdict (fun _ => True) (courses.map Course.arrival) outcome time) :
    ∃ jobs, Decided (Parallel.firstSettled (courses.map Course.future))
      (some (outcome.mapError NoWinner.failed, time)) jobs := by
  let entrant (course : Course σ ε α) : Course σ (NoWinner ε) α :=
    ⟨course.future.mapError .failed, course.arrival.map (Prod.map (Except.mapError .failed) id),
      1 + course.jobs + if course.arrival.isSome then 1 else 0⟩
  have each : ∀ course ∈ courses.map entrant, Decided course.future course.arrival course.jobs := by
    intro course listed
    obtain ⟨plain, inside, rfl⟩ := List.mem_map.mp listed
    exact (decided plain inside).mapError
  have entered := verdict.map (Except.mapError NoWinner.failed)
  rw [List.map_map] at entered
  have raced := Decided.race each (by rwa [List.map_map])
  have form : Parallel.firstSettled (courses.map Course.future) =
      Parallel.race ((courses.map entrant).map Course.future) := by
    have nonempty : courses.map Course.future ≠ [] := by
      simpa using List.ne_nil_of_mem verdict.arrives
    rw [Parallel.firstSettled_of_ne_nil nonempty, List.map_map, List.map_map]
    rfl
  exact ⟨_, form ▸ raced⟩

end Decided

/-- A future whose races are all decided by the clock. -/
def Untied (future : Future σ ε α) : Prop :=
  ∃ arrival jobs, Decided future arrival jobs

/-- Two futures that come to the same outcome after the same time, or both to none, on whatever loops. -/
def Agree [Storable (Except ε α) σ] (one other : Future σ ε α) : Prop :=
  ∃ arrival, one.Gives arrival ∧ other.Gives arrival

theorem Decided.agree [Storable (Except ε α) σ] {one other : Future σ ε α} {arrival : Arrival ε α}
    {jobs jobs' : Nat} (decided : Decided one arrival jobs) (decided' : Decided other arrival jobs') :
    one.Agree other :=
  ⟨arrival, decided.gives, decided'.gives⟩

section Laws

variable {first : Future σ ε α} {f : α → Future σ ε β} {g : β → Future σ ε γ}

theorem Untied.left_identity [Storable (Except ε β) σ] {value : α} (untied : (f value).Untied) :
    ((Future.succeed value).bind f).Agree (f value) := by
  obtain ⟨arrival, jobs, decided⟩ := untied
  have bound := (Decided.succeed value).bind_ok decided
  rw [Arrival.after_zero] at bound
  exact bound.agree decided

theorem Untied.right_identity [Storable (Except ε α) σ] (untied : first.Untied) :
    (first.bind .succeed).Agree first := by
  obtain ⟨arrival, jobs, decided⟩ := untied
  match arrival with
  | none => exact decided.bind_never.agree decided
  | some (.ok value, duration) => exact (decided.bind_ok (.succeed value)).agree decided
  | some (.error error, duration) => exact decided.bind_error.agree decided

theorem Untied.associativity [Storable (Except ε α) σ] [Storable (Except ε β) σ]
    [Storable (Except ε γ) σ] (untied : first.Untied)
    (follows : ∀ value duration, first.Gives (some (.ok value, duration)) → (f value).Untied)
    (follows' : ∀ value duration, (first.bind f).Gives (some (.ok value, duration)) →
      (g value).Untied) :
    ((first.bind f).bind g).Agree (first.bind fun value => (f value).bind g) := by
  obtain ⟨arrival, jobs, decided⟩ := untied
  match arrival with
  | none => exact decided.bind_never.bind_never.agree decided.bind_never
  | some (.error error, duration) => exact decided.bind_error.bind_error.agree decided.bind_error
  | some (.ok value, duration) =>
    obtain ⟨arrival', jobs', decided'⟩ := follows value duration decided.gives
    have inner := decided.bind_ok decided'
    match arrival' with
    | none =>
      have right : Decided (first.bind fun value => (f value).bind g) (Arrival.after duration none) _ :=
        decided.bind_ok decided'.bind_never
      exact inner.bind_never.agree right
    | some (.error error, duration') =>
      have right : Decided (first.bind fun value => (f value).bind g)
          (Arrival.after duration (some (.error error, duration'))) _ :=
        decided.bind_ok decided'.bind_error
      exact inner.bind_error.agree right
    | some (.ok value', duration') =>
      obtain ⟨arrival'', jobs'', decided''⟩ := follows' value' _ inner.gives
      have right : Decided (first.bind fun value => (f value).bind g)
          (Arrival.after duration (Arrival.after duration' arrival'')) _ :=
        decided.bind_ok (decided'.bind_ok decided'')
      rw [Arrival.after_after] at right
      exact (inner.bind_ok decided'').agree right

/-- What the constructors and combinators build is decided by the clock, unless some race in it is tied.
Where no race is tied, in the future itself or in what follows from the values that it comes to, the laws
of a monad hold: each side settles, with the same outcome after the same time, or neither does, on
whatever loop where nothing else is to be done, for every limit of the periodic yield. -/
theorem monad_laws_unless_tied [Storable (Except ε α) σ] [Storable (Except ε β) σ]
    [Storable (Except ε γ) σ] {leaves : Leaves σ} (fixed : leaves.Fixed) :
    (∀ ⦃δ κ : Type⦄ ⦃future : Future σ δ κ⦄ ⦃possible : Except δ κ → Prop⦄,
      Built leaves True future possible → future.Untied ∨ future.Tied) ∧
    (∀ value, (f value).Untied → ((Future.succeed value).bind f).Agree (f value)) ∧
    (first.Untied → (first.bind .succeed).Agree first) ∧
    (first.Untied →
      (∀ value duration, first.Gives (some (.ok value, duration)) → (f value).Untied) →
      (∀ value duration, (first.bind f).Gives (some (.ok value, duration)) → (g value).Untied) →
        ((first.bind f).bind g).Agree (first.bind fun value => (f value).bind g)) := by
  refine ⟨fun δ κ future possible built => ?_, fun value => Untied.left_identity,
    Untied.right_identity, Untied.associativity⟩
  refine (built.sure_or_tied fixed).imp_left ?_
  rintro ⟨arrival, jobs, _, decided⟩
  exact ⟨arrival, jobs, decided⟩

/-- A race, a timeout and a sum of two values, and among the members of the race a raw future that yields
before it hands its value on, and one that drops its continuation, alone and under a timeout. -/
theorem monad_laws_unless_tied_raced :
    let yielding : Future (Except String Nat ⊕ Nat) String Nat :=
      ⟨fun next => .submit .yielded (fun _ => next (.ok 4)) .done⟩
    let race : Future (Except String Nat ⊕ Nat) String Nat :=
      (Parallel.firstSettled [Future.never.timeout 30 "slow", .never, yielding]).mapError
        fun _ : NoWinner String => "lost"
    let limited (value : Nat) : Future (Except String Nat ⊕ Nat) String Nat :=
      (Future.succeedAfter (value + 1) 20).timeout 35 "late"
    let summed (value : Nat) : Future (Except String Nat ⊕ Nat) String Nat :=
      (Parallel.all [.succeed value, .succeedAfter 2 5]).map List.sum
    ((Future.succeed 4).bind limited).Agree (limited 4) ∧ (race.bind .succeed).Agree race ∧
      ((race.bind limited).bind summed).Agree (race.bind fun value => (limited value).bind summed) := by
  intro yielding race limited summed
  let leaves : Leaves (Except String Nat ⊕ Nat) := fun ε α future possible =>
    future = .never ∨ ∃ outcome, possible outcome ∧
      future = ⟨fun next => .submit .yielded (fun _ => next outcome) .done⟩
  have yields {ε α : Type} (outcome : Except ε α) (setting : Setting) :
      (⟨fun next => .submit .yielded (fun _ => next outcome) .done⟩ :
        Future (Except String Nat ⊕ Nat) ε α).Keeps setting (.arriving (some (outcome, 0)) 1) :=
    fun _ _ _ _ _ _ pays => pays_submit (pays outcome 0 ⟨rfl, rfl⟩)
  have fixed : leaves.Fixed := by
    rintro ε α future possible (rfl | ⟨outcome, may, rfl⟩)
    · exact ⟨none, 0, fun _ same => absurd same (by simp), fun setting _ _ lenient => keeps_never lenient⟩
    · exact ⟨some (outcome, 0), 1, fun _ same => Option.some.inj same ▸ may,
        fun setting _ _ _ => yields outcome setting⟩
  have raced : race.Untied := by
    let courses : List (Course (Except String Nat ⊕ Nat) String Nat) :=
      [⟨Future.never.timeout 30 "slow", some (.error "slow", 30), 1⟩, ⟨.never, none, 0⟩,
        ⟨yielding, some (.ok 4, 0), 1⟩]
    have each : ∀ course ∈ courses, Decided course.future course.arrival course.jobs :=
      List.forall_mem_cons.mpr ⟨Decided.never.timeout_late fun _ _ same => absurd same (by simp),
        List.forall_mem_cons.mpr ⟨.never,
          List.forall_mem_singleton.mpr (.raw fun setting _ _ _ => yields (.ok 4) setting)⟩⟩
    have verdict : Verdict (fun _ => True) (courses.map Course.arrival) (.ok 4) 0 := by
      refine ⟨by simp [courses], trivial, fun other later listed _ => ?_⟩
      simp only [courses, List.map_cons, List.map_nil, List.mem_cons, Option.some.injEq, Prod.mk.injEq,
        reduceCtorEq, List.not_mem_nil, or_false, false_or] at listed
      rcases listed with ⟨_, rfl⟩ | ⟨rfl, rfl⟩
      · exact .inl (by decide)
      · exact .inr ⟨rfl, rfl⟩
    obtain ⟨jobs, decided⟩ := Decided.firstSettled each verdict
    exact ⟨_, _, decided.mapError⟩
  have limits : ∀ value, (limited value).Untied := fun value =>
    ⟨_, _, Decided.timeout_early (.settledAfter (.ok (value + 1)) 20) (by decide)⟩
  have sums : ∀ value, (summed value).Untied := by
    intro value
    let members : List (Timed (Except String Nat ⊕ Nat) String Nat) :=
      [⟨.succeed value, .ok value, 0, 1⟩, ⟨.succeedAfter 2 5, .ok 2, 5, 1⟩]
    have each : ∀ member ∈ members,
        Decided member.future (some (member.outcome, member.duration)) member.jobs :=
      List.forall_mem_cons.mpr ⟨.succeed value, List.forall_mem_singleton.mpr (.settledAfter _ 5)⟩
    have both : members.map Timed.outcome = [value, 2].map .ok := rfl
    exact ⟨_, _, (Decided.all each both).andThen_ok (.succeed ([value, 2].sum))⟩
  obtain ⟨_, left, right, both⟩ :=
    @monad_laws_unless_tied _ _ _ _ _ race limited summed _ _ _ leaves fixed
  exact ⟨left 4 (limits 4), right raced,
    both raced (fun value _ _ => limits value) fun value _ _ => sums value⟩

end Laws

/-- Of two futures that settle at once, it depends on the limit of the periodic yield and on the count
towards it which one wins; and a raw future may look at the count itself. -/
theorem monad_laws_broken_by_tie :
    let race : Future (Except String Nat) String Nat :=
      (Parallel.firstSettled [.succeed 1, .succeed 2]).mapError fun _ : NoWinner String => "lost"
    let counting : Future (Except String Nat) String Nat :=
      ⟨fun next => .inspect fun stats _ => .submit .scheduled (fun _ => next (.ok stats.streak)) .done⟩
    let come (limit : Nat) (future : Future (Except String Nat) String Nat) :
        Option (Option (Except String Nat)) :=
      (Loop.waitFor 90 future { config := { maxStreak := limit } }).map Waited.outcome
    Built Leaves.none True race (fun _ => True) ∧ race.Tied ∧
      (come 1 ((Future.succeed 0).bind fun _ => race) = some (some (.ok 2)) ∧
        come 1 race = some (some (.ok 1))) ∧
      (come 0 (race.bind .succeed) = some (some (.ok 1)) ∧ come 0 race = some (some (.ok 2))) ∧
      (come 0 ((race.bind .succeed).bind .succeed) = some (some (.ok 2)) ∧
        come 0 (race.bind fun value => (Future.succeed value).bind .succeed) = some (some (.ok 1))) ∧
      come 9 ((Future.succeed 0).bind fun _ => counting) = some (some (.ok 2)) ∧
      come 9 counting = some (some (.ok 0)) := by
  intro race counting come
  refine ⟨?_, ?_, by decide +kernel⟩
  · have each : ∀ future ∈ ([.succeed 1, .succeed 2] : List (Future (Except String Nat) String Nat)),
        Built Leaves.none True future fun _ => True :=
      List.forall_mem_cons.mpr ⟨.succeed trivial, List.forall_mem_singleton.mpr (.succeed trivial)⟩
    have entered : Built Leaves.none True
        (Parallel.firstSettled [Future.succeed 1, .succeed 2] : Future _ (NoWinner String) Nat) fun _ =>
          True := .firstSettled trivial each (fun _ _ => trivial) fun _ => trivial
    exact entered.mapError fun _ _ => trivial
  · let entrant (value : Nat) : Course (Except String Nat) (NoWinner String) Nat :=
      ⟨(Future.succeed value).mapError .failed, some (.ok value, 0), 3⟩
    have each : ∀ course ∈ [entrant 1, entrant 2],
        Decided course.future course.arrival course.jobs :=
      List.forall_mem_cons.mpr ⟨(Decided.succeed 1).mapError,
        List.forall_mem_singleton.mpr (Decided.succeed 2).mapError⟩
    have tie : Tie (fun _ => True)
        [(some (.ok 1, 0) : Arrival (NoWinner String) Nat), some (.ok 2, 0)] :=
      ⟨.ok 1, .ok 2, 0, by simp, by simp, trivial, trivial, by simp, fun _ _ _ _ => Nat.zero_le _⟩
    exact .first (.race each tie)

end Deferred.Future
