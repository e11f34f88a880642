import Deferred.Proofs.Debt.Delivers
import Deferred.Proofs.Debt.Noted
import Deferred.Proofs.Future.Verdict

/-! Futures that may race within, as long as none of their races is tied, and of which some may never
settle. They too can be evaluated directly, without a loop: the clock alone decides each race. On a loop
such a future does just what this evaluation says, however the loop is configured and whatever it has
counted. -/

namespace Deferred.Future

variable {σ : Type}

/-- What a future comes to and when, if ever, and after how many jobs, where no race on the way there is
tied. -/
inductive Decided : ∀ {ε α : Type}, Future σ ε α → Arrival ε α → (jobs : Nat) → Prop
  /-- A future that is not made of others is decided if it hands on one outcome, at a time and after jobs
  that do not depend on the loop, or hands on none. -/
  | raw {ε α : Type} {future : Future σ ε α} {arrival jobs}
      (keeps : ∀ setting : Setting, ¬setting.nested → ¬setting.patient → setting.lenient →
        future.Keeps setting (.arriving arrival jobs)) : Decided future arrival jobs
  | settled {ε α : Type} (outcome : Except ε α) : Decided (settled outcome) (some (outcome, 0)) 1
  | settledAfter {ε α : Type} (outcome : Except ε α) (delay : Nat) :
      Decided (settledAfter outcome delay) (some (outcome, delay)) 1
  | later {ε α : Type} {thunk : Unit → Future σ ε α} {arrival jobs}
      (decided : Decided (thunk ()) arrival jobs) : Decided (later thunk) arrival (1 + jobs)
  | bindOutcome {ε ε' α β : Type} {first : Future σ ε α} {step : Except ε α → Future σ ε' β}
      {outcome duration jobs arrival jobs'} (decided : Decided first (some (outcome, duration)) jobs)
      (follows : Decided (step outcome) arrival jobs') :
      Decided (first.bindOutcome step) (Arrival.after duration arrival) (1 + jobs + jobs')
  | bindNever {ε ε' α β : Type} {first : Future σ ε α} {step : Except ε α → Future σ ε' β} {jobs}
      (decided : Decided first none jobs) : Decided (first.bindOutcome step) none (1 + jobs)
  | watched {ε α : Type} [Shown ε] [Shown α] {future : Future σ ε α} {arrival jobs}
      (name : String) (decided : Decided future arrival jobs) :
      Decided (future.watched name) arrival jobs
  | allSettled {ε α : Type} [Storable (Except ε α) σ] {members : List (Timed σ ε α)}
      (decided : ∀ member ∈ members,
        Decided member.future (some (member.outcome, member.duration)) member.jobs) :
      Decided (Parallel.allSettled (members.map Timed.future))
        (some (.ok (members.map Timed.outcome), longest (members.map Timed.duration)) :
          Arrival ε (List (Except ε α)))
        (jobsTogether members)
  | allSettledNever {ε α : Type} [Storable (Except ε α) σ] {courses : List (Course σ ε α)}
      (decided : ∀ course ∈ courses, Decided course.future course.arrival course.jobs)
      (never : none ∈ courses.map Course.arrival) :
      Decided (Parallel.allSettled (courses.map Course.future))
        (none : Arrival ε (List (Except ε α))) (courses.map Course.jobs).sum
  | all {ε α : Type} [Storable α σ] {members : List (Timed σ ε α)} {values : List α}
      (decided : ∀ member ∈ members,
        Decided member.future (some (member.outcome, member.duration)) member.jobs)
      (succeed : members.map Timed.outcome = values.map .ok) :
      Decided (Parallel.all (members.map Timed.future))
        (some (.ok values, longest (members.map Timed.duration)) : Arrival ε (List α))
        (jobsTogether members)
  | allFails {ε α : Type} [Storable α σ] {courses : List (Course σ ε α)} {error time}
      (decided : ∀ course ∈ courses, Decided course.future course.arrival course.jobs)
      (verdict : Verdict Fails (courses.map Course.arrival) (.error error) time) :
      Decided (Parallel.all (courses.map Course.future))
        (some (.error error, time) : Arrival ε (List α)) (courses.map Course.jobs).sum
  | allNever {ε α : Type} [Storable α σ] {courses : List (Course σ ε α)}
      (decided : ∀ course ∈ courses, Decided course.future course.arrival course.jobs)
      (stalled : Stalled Fails (courses.map Course.arrival)) :
      Decided (Parallel.all (courses.map Course.future)) (none : Arrival ε (List α))
        (courses.map Course.jobs).sum
  | any {ε α : Type} [Storable ε σ] {courses : List (Course σ ε α)} {value time}
      (decided : ∀ course ∈ courses, Decided course.future course.arrival course.jobs)
      (verdict : Verdict Succeeds (courses.map Course.arrival) (.ok value) time) :
      Decided (Parallel.any (courses.map Course.future))
        (some (.ok value, time) : Arrival (NoWinner ε) α) (courses.map Course.jobs).sum
  | anyFails {ε α : Type} [Storable ε σ] {members : List (Timed σ ε α)} {errors : List ε}
      (nonempty : members ≠ [])
      (decided : ∀ member ∈ members,
        Decided member.future (some (member.outcome, member.duration)) member.jobs)
      (fail : members.map Timed.outcome = errors.map .error) :
      Decided (Parallel.any (members.map Timed.future))
        (some (.error (.allFailed errors), longest (members.map Timed.duration)) :
          Arrival (NoWinner ε) α)
        (jobsTogether members)
  | anyNever {ε α : Type} [Storable ε σ] {courses : List (Course σ ε α)}
      (decided : ∀ course ∈ courses, Decided course.future course.arrival course.jobs)
      (stalled : Stalled Succeeds (courses.map Course.arrival)) :
      Decided (Parallel.any (courses.map Course.future)) (none : Arrival (NoWinner ε) α)
        (courses.map Course.jobs).sum
  | anyNone {ε α : Type} [Storable ε σ] :
      Decided (Parallel.any ([] : List (Future σ ε α))) (some (.error .empty, 0)) 1
  | race {ε α : Type} {courses : List (Course σ ε α)} {outcome time}
      (decided : ∀ course ∈ courses, Decided course.future course.arrival course.jobs)
      (verdict : Verdict (fun _ => True) (courses.map Course.arrival) outcome time) :
      Decided (Parallel.race (courses.map Course.future)) (some (outcome, time))
        (courses.map Course.jobs).sum
  | raceNever {ε α : Type} {courses : List (Course σ ε α)}
      (decided : ∀ course ∈ courses, Decided course.future course.arrival course.jobs)
      (stalled : Stalled (fun _ => True) (courses.map Course.arrival)) :
      Decided (Parallel.race (courses.map Course.future)) none (courses.map Course.jobs).sum
  | zip {ε α β : Type} [Storable α σ] [Storable β σ] {left : Future σ ε α} {right : Future σ ε β}
      {value duration jobs other duration' jobs'}
      (decidedLeft : Decided left (some (.ok value, duration)) jobs)
      (decidedRight : Decided right (some (.ok other, duration')) jobs') :
      Decided (Parallel.zip left right) (some (.ok (value, other), max duration duration'))
        (jobs + jobs')
  | zipFails {ε α β : Type} [Storable α σ] [Storable β σ] {left : Future σ ε α} {right : Future σ ε β}
      {arrival jobs arrival' jobs' error time} (decidedLeft : Decided left arrival jobs)
      (decidedRight : Decided right arrival' jobs')
      (verdict : Verdict Fails [unvalued arrival, unvalued arrival'] (.error error) time) :
      Decided (Parallel.zip left right) (some (.error error, time)) (jobs + jobs')
  | zipNever {ε α β : Type} [Storable α σ] [Storable β σ] {left : Future σ ε α} {right : Future σ ε β}
      {arrival jobs arrival' jobs'} (decidedLeft : Decided left arrival jobs)
      (decidedRight : Decided right arrival' jobs')
      (stalled : Stalled Fails [unvalued arrival, unvalued arrival']) :
      Decided (Parallel.zip left right) none (jobs + jobs')

section Sequence

variable {ε ε' α β : Type} {setting : Setting} {first : Future σ ε α} {step : Except ε α → Future σ ε' β}

theorem Keeps.later_arriving {thunk : Unit → Future σ ε α} {arrival : Arrival ε α} {jobs : Nat}
    (keeps : (thunk ()).Keeps setting (.arriving arrival jobs)) :
    (Future.later thunk).Keeps setting (.arriving arrival (1 + jobs)) := by
  cases arrival with
  | some arrived => exact keeps.later_exactly
  | none => exact keeps.later (fun _ _ come => come) (le_refl _) (Nat.cast_add 1 jobs)

theorem Keeps.bindOutcome_arriving {outcome : Except ε α} {duration jobs jobs' : Nat}
    {arrival : Arrival ε' β} (keeps : first.Keeps setting (.exactly outcome duration jobs))
    (follows : (step outcome).Keeps setting (.arriving arrival jobs')) :
    (first.bindOutcome step).Keeps setting
      (.arriving (Arrival.after duration arrival) (1 + jobs + jobs')) := by
  cases arrival with
  | some arrived => exact keeps.bindOutcome_exactly follows
  | none =>
    have count : (Promise.never (1 + jobs + jobs') : Promise ε' β).jobs = 1 + (jobs : ℕ∞) + jobs' := by
      simp [Promise.never]
    have whole : (first.bindOutcome step).Keeps setting (.never (1 + jobs + jobs')) := by
      refine keeps.bindOutcome le_top count fun found after may => ?_
      obtain ⟨rfl, rfl⟩ := may
      exact ⟨_, follows, fun _ _ come => come, le_top, rfl⟩
    exact whole

theorem Keeps.bindNever {jobs : Nat} (keeps : first.Keeps setting (.never jobs)) :
    (first.bindOutcome step).Keeps setting (.never (1 + jobs)) := by
  have count : (Promise.never (1 + jobs) : Promise ε' β).jobs = 1 + (jobs : ℕ∞) + 0 := by
    simp [Promise.never]
  exact keeps.bindOutcome (le_refl _) count fun _ _ come => absurd come not_false

end Sequence

section Members

variable {ε ε' α β γ δ : Type} {setting : Setting} {members : List δ} {member : δ → Future σ ε α}
  {promise : δ → Promise ε α} {jobs : δ → Nat} {whole : Promise ε' γ}

theorem keeps_together [Storable β σ] (simple : ¬setting.nested) (impatient : ¬setting.patient)
    (keeps : ∀ one ∈ members, (member one).Keeps setting (promise one))
    (count : ∀ one, (promise one).jobs = jobs one) (nonempty : members ≠ [])
    {sort : Except ε α → β ⊕ Except ε' γ} {finish : List β → Except ε' γ}
    (joins : Parallel.Joins sort finish members.length (promiseAmong promise members) whole)
    (total : whole.jobs = ((members.map jobs).sum : Nat)) {after : Nat → Bool → Script σ}
    (idle : ∀ index won, Parallel.Idle setting (after index won))
    {combine : List (Future σ ε α) → Future σ ε' γ}
    (form : ∀ futures, futures ≠ [] → combine futures =
      Parallel.sideBySide (.ofSize futures.length) (Parallel.arrivalBy sort finish after) futures) :
    (combine (members.map member)).Keeps setting whole := by
  have some : members.map member ≠ [] := fun none => nonempty (List.map_eq_nil_iff.mp none)
  have size : (members.map member).length = members.length := List.length_map _
  rw [form _ some]
  rw [← size] at joins
  refine Parallel.keeps_joint joins after idle some (keeps_among keeps)
    (fun nested => absurd nested simple) (fun patient => absurd patient impatient) ?_
  rw [size, jobsOf_promiseAmong count, total]

theorem keeps_raceTogether {whole : Promise ε α} (simple : ¬setting.nested)
    (impatient : ¬setting.patient) (keeps : ∀ one ∈ members, (member one).Keeps setting (promise one))
    (count : ∀ one, (promise one).jobs = jobs one)
    (competes : Parallel.Competes members.length (promiseAmong promise members) whole)
    (total : whole.jobs = ((members.map jobs).sum : Nat)) :
    (Parallel.race (members.map member)).Keeps setting whole := by
  have size : (members.map member).length = members.length := List.length_map _
  refine Parallel.keeps_race (size ▸ competes) (keeps_among keeps) (fun nested => absurd nested simple)
    impatient ?_
  rw [size, jobsOf_promiseAmong count, total]

end Members

theorem jobsTogether_eq {ε α : Type} {members : List (Timed σ ε α)} (nonempty : members ≠ []) :
    jobsTogether members = (members.map Timed.jobs).sum := by
  cases members with
  | nil => exact absurd rfl nonempty
  | cons first rest => rfl

section Decisions

variable {ε ε' α β γ : Type} {setting : Setting} (simple : ¬setting.nested) (impatient : ¬setting.patient)

include simple impatient

section Filled

variable {members : List (Timed σ ε α)} (keeps : ∀ member ∈ members,
  member.future.Keeps setting (.exactly member.outcome member.duration member.jobs))

include keeps

theorem keeps_filled [Storable β σ] (nonempty : members ≠ []) {sort : Except ε α → β ⊕ Except ε' γ}
    {finish : List β → Except ε' γ} {values : List β}
    (sorted : members.map (fun member => sort member.outcome) = values.map .inl)
    {after : Nat → Bool → Script σ} (idle : ∀ index won, Parallel.Idle setting (after index won))
    {combine : List (Future σ ε α) → Future σ ε' γ}
    (form : ∀ futures, futures ≠ [] → combine futures =
      Parallel.sideBySide (.ofSize futures.length) (Parallel.arrivalBy sort finish after) futures) :
    (combine (members.map Timed.future)).Keeps setting
      (.exactly (finish values) (longest (members.map Timed.duration)) (jobsTogether members)) := by
  rw [jobsTogether_eq nonempty]
  exact keeps_together simple impatient keeps (fun _ => rfl) nonempty (joins_filled finish sorted) rfl
    idle form

theorem keeps_all [Storable α σ] {values : List α}
    (succeed : members.map Timed.outcome = values.map .ok) :
    (Parallel.all (members.map Timed.future)).Keeps setting
      (.exactly (.ok values : Except ε (List α)) (longest (members.map Timed.duration))
        (jobsTogether members)) := by
  rcases eq_or_ne members [] with rfl | nonempty
  · obtain rfl : values = [] := List.map_eq_nil_iff.mp succeed.symm
    exact keeps_settled (.ok [])
  · have sorted := congrArg (List.map (@Parallel.valueOrEnd ε α)) succeed
    rw [List.map_map, List.map_map] at sorted
    exact keeps_filled simple impatient keeps nonempty sorted (fun _ => Parallel.Idle.record_if _)
      fun _ => Parallel.all_eq

theorem keeps_anyFails [Storable ε σ] (nonempty : members ≠ []) {errors : List ε}
    (fail : members.map Timed.outcome = errors.map .error) :
    (Parallel.any (members.map Timed.future)).Keeps setting
      (.exactly (.error (.allFailed errors) : Except (NoWinner ε) α)
        (longest (members.map Timed.duration)) (jobsTogether members)) := by
  have sorted := congrArg (List.map (@Parallel.endOrError ε α)) fail
  rw [List.map_map, List.map_map] at sorted
  exact keeps_filled simple impatient keeps nonempty sorted (fun _ => Parallel.Idle.record_if _)
    fun _ => Parallel.any_eq

end Filled

section Courses

variable {courses : List (Course σ ε α)} (keeps : ∀ course ∈ courses,
  course.future.Keeps setting course.promise)
  [Storable β σ] {sort : Except ε α → β ⊕ Except ε' γ} {finish : List β → Except ε' γ}
  {kind : Except ε α → Prop} (kinds : ∀ outcome, (∃ result, sort outcome = .inr result) ↔ kind outcome)
  {after : Nat → Bool → Script σ} (idle : ∀ index won, Parallel.Idle setting (after index won))
  {combine : List (Future σ ε α) → Future σ ε' γ}
  (form : ∀ futures, futures ≠ [] → combine futures =
    Parallel.sideBySide (.ofSize futures.length) (Parallel.arrivalBy sort finish after) futures)

include keeps kinds idle form

theorem keeps_ended {outcome : Except ε α} {time : Nat} {result : Except ε' γ}
    (verdict : Verdict kind (courses.map Course.arrival) outcome time)
    (ends : sort outcome = .inr result) :
    (combine (courses.map Course.future)).Keeps setting
      (.exactly result time (courses.map Course.jobs).sum) :=
  keeps_together simple impatient keeps (fun course => Promise.arriving_jobs ..)
    (fun none => by simpa [none] using verdict.arrives) ((verdict.congr kinds).joins ends _) rfl idle form

theorem keeps_stalled (stalled : Stalled kind (courses.map Course.arrival)) :
    (combine (courses.map Course.future)).Keeps setting (.never (courses.map Course.jobs).sum) :=
  keeps_together simple impatient keeps (fun course => Promise.arriving_jobs ..)
    (fun none => by simpa [none] using stalled.never) ((stalled.congr kinds).joins _) rfl idle form

end Courses

end Decisions

theorem Decided.keeps {ε α : Type} {future : Future σ ε α} {arrival : Arrival ε α} {jobs : Nat}
    (decided : Decided future arrival jobs) {setting : Setting} (simple : ¬setting.nested)
    (impatient : ¬setting.patient) (lenient : setting.lenient) :
    future.Keeps setting (.arriving arrival jobs) := by
  induction decided with
  | raw keeps => exact keeps setting simple impatient lenient
  | settled outcome => exact keeps_settled outcome
  | settledAfter outcome delay => exact keeps_settledAfter outcome delay
  | later _ ih => exact ih.later_arriving
  | bindOutcome _ _ ihFirst ihStep => exact ihFirst.bindOutcome_arriving ihStep
  | bindNever _ ih => exact ih.bindNever
  | watched name _ ih => exact ih.watched name
  | allSettled _ ih => exact keeps_allSettled simple ih
  | allSettledNever _ never ih =>
    exact keeps_stalled simple impatient ih (fun _ => ⟨fun ⟨_, same⟩ => absurd same (by simp), False.elim⟩)
      (fun _ _ => .done) (fun _ => Parallel.allSettled_eq) ⟨never, fun _ _ _ => not_false⟩
  | all _ succeed ih => exact keeps_all simple impatient ih succeed
  | allFails _ verdict ih =>
    exact keeps_ended simple impatient ih exists_valueOrEnd_eq_inr (fun _ => Parallel.Idle.record_if _)
      (fun _ => Parallel.all_eq) verdict rfl
  | allNever _ stalled ih =>
    exact keeps_stalled simple impatient ih exists_valueOrEnd_eq_inr (fun _ => Parallel.Idle.record_if _)
      (fun _ => Parallel.all_eq) stalled
  | any _ verdict ih =>
    exact keeps_ended simple impatient ih exists_endOrError_eq_inr (fun _ => Parallel.Idle.record_if _)
      (fun _ => Parallel.any_eq) verdict rfl
  | anyFails nonempty _ fail ih => exact keeps_anyFails simple impatient ih nonempty fail
  | anyNever _ stalled ih =>
    exact keeps_stalled simple impatient ih exists_endOrError_eq_inr (fun _ => Parallel.Idle.record_if _)
      (fun _ => Parallel.any_eq) stalled
  | anyNone => exact keeps_settled (.error NoWinner.empty)
  | race _ verdict ih =>
    exact keeps_raceTogether simple impatient ih (fun course => Promise.arriving_jobs ..)
      (verdict.competes _) rfl
  | raceNever _ stalled ih =>
    exact keeps_raceTogether simple impatient ih (fun course => Promise.arriving_jobs ..)
      (stalled.competes _) rfl
  | zip _ _ ihLeft ihRight =>
    exact Parallel.keeps_halves (halves_both ..) ihLeft ihRight (fun nested => absurd nested simple)
      impatient (Nat.cast_add ..)
  | zipFails _ _ verdict ihLeft ihRight =>
    refine Parallel.keeps_halves (verdict.halves ..) ihLeft ihRight (fun nested => absurd nested simple)
      impatient ?_
    simp only [Promise.arriving_jobs]
    exact Nat.cast_add ..
  | zipNever _ _ stalled ihLeft ihRight =>
    refine Parallel.keeps_halves (stalled.halves ..) ihLeft ihRight (fun nested => absurd nested simple)
      impatient ?_
    simp only [Promise.arriving_jobs]
    exact Nat.cast_add ..

/-- On every loop where nothing else is to be done, whatever its configuration and its count towards the
next periodic yield, waiting for a future gives its outcome, when it says on the clock of the loop, or
ends without an outcome once the loop is idle. The host's bound must not be too low. -/
def Gives {ε α : Type} [Storable (Except ε α) σ] (future : Future σ ε α) (arrival : Arrival ε α) : Prop :=
  ∃ least, ∀ bound > least, ∀ loop : Loop σ, loop.Vacant → ∃ waited,
    loop.waitFor bound future = some waited ∧ waited.outcome = arrival.map Prod.fst ∧
      ∀ time ∈ arrival.map Prod.snd, waited.loop.clock = loop.clock + time

/-- The outcome and the time of a decided future do not depend on the loop. -/
theorem Decided.gives {ε α : Type} [Storable (Except ε α) σ] {future : Future σ ε α}
    {arrival : Arrival ε α} {jobs : Nat} (decided : Decided future arrival jobs) :
    future.Gives arrival := by
  refine ⟨2 * jobs, fun bound enough loop vacant => ?_⟩
  have keeps : future.Keeps (.forgiving bound) (.arriving arrival jobs) :=
    decided.keeps not_false not_false trivial
  cases arrival with
  | some arrived =>
    obtain ⟨ran, _, after, _, waited, clock, _⟩ :=
      keeps.driven not_false False.elim (fun _ => False.elim) vacant enough
    refine ⟨_, waited, rfl, fun time same => ?_⟩
    obtain rfl := Option.some.inj same
    exact clock
  | none =>
    obtain ⟨ran, after, waited⟩ := keeps.idles not_false False.elim (fun _ => False.elim) vacant enough
    exact ⟨_, waited, rfl, fun time same => absurd same (by simp)⟩

end Deferred.Future
