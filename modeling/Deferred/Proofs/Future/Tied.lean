import Deferred.Proofs.Future.Decided

/-! Ties. A future that the constructors and combinators build is decided by the clock, unless a race that
takes part in it is tied. -/

namespace Deferred.Future

variable {σ : Type}

/-- In what a future goes through, some race is tied: among the members that would settle it at once two
of the earliest come at the same time and would settle it differently. -/
inductive Tied : ∀ {ε α : Type}, Future σ ε α → Prop
  | later {ε α : Type} {thunk : Unit → Future σ ε α} (tied : Tied (thunk ())) : Tied (later thunk)
  | first {ε ε' α β : Type} {first : Future σ ε α} {step : Except ε α → Future σ ε' β}
      (tied : Tied first) : Tied (first.bindOutcome step)
  | step {ε ε' α β : Type} {first : Future σ ε α} {step : Except ε α → Future σ ε' β}
      {outcome duration jobs} (decided : Decided first (some (outcome, duration)) jobs)
      (tied : Tied (step outcome)) : Tied (first.bindOutcome step)
  | watched {ε α : Type} [Shown ε] [Shown α] {future : Future σ ε α} (name : String)
      (tied : Tied future) : Tied (future.watched name)
  | amongAllSettled {ε α : Type} [Storable (Except ε α) σ] {futures : List (Future σ ε α)} {future}
      (member : future ∈ futures) (tied : Tied future) : Tied (Parallel.allSettled futures)
  | amongAll {ε α : Type} [Storable α σ] {futures : List (Future σ ε α)} {future}
      (member : future ∈ futures) (tied : Tied future) : Tied (Parallel.all futures)
  | amongAny {ε α : Type} [Storable ε σ] {futures : List (Future σ ε α)} {future}
      (member : future ∈ futures) (tied : Tied future) : Tied (Parallel.any futures)
  | amongRace {ε α : Type} {futures : List (Future σ ε α)} {future}
      (member : future ∈ futures) (tied : Tied future) : Tied (Parallel.race futures)
  | left {ε α β : Type} [Storable α σ] [Storable β σ] {left : Future σ ε α} {right : Future σ ε β}
      (tied : Tied left) : Tied (Parallel.zip left right)
  | right {ε α β : Type} [Storable α σ] [Storable β σ] {left : Future σ ε α} {right : Future σ ε β}
      (tied : Tied right) : Tied (Parallel.zip left right)
  | all {ε α : Type} [Storable α σ] {courses : List (Course σ ε α)}
      (decided : ∀ course ∈ courses, Decided course.future course.arrival course.jobs)
      (tie : Tie Fails (courses.map Course.arrival)) : Tied (Parallel.all (courses.map Course.future))
  | any {ε α : Type} [Storable ε σ] {courses : List (Course σ ε α)}
      (decided : ∀ course ∈ courses, Decided course.future course.arrival course.jobs)
      (tie : Tie Succeeds (courses.map Course.arrival)) :
      Tied (Parallel.any (courses.map Course.future))
  | race {ε α : Type} {courses : List (Course σ ε α)}
      (decided : ∀ course ∈ courses, Decided course.future course.arrival course.jobs)
      (tie : Tie (fun _ => True) (courses.map Course.arrival)) :
      Tied (Parallel.race (courses.map Course.future))
  | zip {ε α β : Type} [Storable α σ] [Storable β σ] {left : Future σ ε α} {right : Future σ ε β}
      {arrival jobs arrival' jobs'} (decidedLeft : Decided left arrival jobs)
      (decidedRight : Decided right arrival' jobs')
      (tie : Tie Fails [unvalued arrival, unvalued arrival']) : Tied (Parallel.zip left right)

def Leaves.Fixed (leaves : Leaves σ) : Prop :=
  ∀ ⦃ε α : Type⦄ ⦃future : Future σ ε α⦄ ⦃possible : Except ε α → Prop⦄, leaves ε α future possible →
    ∃ arrival jobs, (∀ arrived ∈ arrival, possible arrived.1) ∧ ∀ setting : Setting, ¬setting.nested →
      ¬setting.patient → setting.lenient → future.Keeps setting (.arriving arrival jobs)

/-- A future whose races are all decided by the clock, and that comes to nothing but possible outcomes. -/
def Sure {ε α : Type} (possible : Except ε α → Prop) (future : Future σ ε α) : Prop :=
  ∃ arrival jobs, (∀ arrived ∈ arrival, possible arrived.1) ∧ Decided future arrival jobs

theorem sure_some {ε α : Type} {possible : Except ε α → Prop} {future : Future σ ε α}
    {outcome : Except ε α} {time jobs : Nat} (may : possible outcome)
    (decided : Decided future (some (outcome, time)) jobs) : Sure possible future :=
  ⟨_, jobs, fun _ same => Option.some.inj same ▸ may, decided⟩

theorem sure_none {ε α : Type} {possible : Except ε α → Prop} {future : Future σ ε α} {jobs : Nat}
    (decided : Decided future none jobs) : Sure possible future :=
  ⟨none, jobs, fun _ same => absurd same (by simp), decided⟩

section Members

variable {ε α β : Type} {courses : List (Course σ ε α)} {each : Except ε α → Prop}

theorem exists_sure_or_tied {futures : List (Future σ ε α)}
    (either : ∀ future ∈ futures, Sure each future ∨ Tied future) :
    (∃ courses : List (Course σ ε α), courses.map Course.future = futures ∧ ∀ course ∈ courses,
      (∀ arrived ∈ course.arrival, each arrived.1) ∧
        Decided course.future course.arrival course.jobs) ∨
      ∃ future ∈ futures, Tied future := by
  induction futures with
  | nil => exact .inl ⟨[], rfl, fun course inside => absurd inside List.not_mem_nil⟩
  | cons future futures ih =>
    rcases either future (List.mem_cons_self ..) with ⟨arrival, jobs, may, decided⟩ | tied
    · rcases ih fun other inside => either other (List.mem_cons_of_mem _ inside) with
        ⟨courses, rfl, rest⟩ | ⟨other, inside, tied⟩
      · exact .inl ⟨⟨future, arrival, jobs⟩ :: courses, rfl,
          List.forall_mem_cons.mpr ⟨⟨may, decided⟩, rest⟩⟩
      · exact .inr ⟨other, List.mem_cons_of_mem _ inside, tied⟩
    · exact .inr ⟨future, List.mem_cons_self .., tied⟩

theorem none_mem_or_timed (courses : List (Course σ ε α)) :
    none ∈ courses.map Course.arrival ∨
      ∃ members : List (Timed σ ε α), members.map Timed.course = courses := by
  induction courses with
  | nil => exact .inr ⟨[], rfl⟩
  | cons course courses ih =>
    rcases ih with never | ⟨members, rfl⟩
    · exact .inl (List.mem_cons_of_mem _ never)
    · obtain ⟨future, arrival, jobs⟩ := course
      cases arrival with
      | none => exact .inl (List.mem_cons_self ..)
      | some arrived => exact .inr ⟨⟨future, arrived.1, arrived.2, jobs⟩ :: members, rfl⟩

variable (sure : ∀ course ∈ courses, (∀ arrived ∈ course.arrival, each arrived.1) ∧
  Decided course.future course.arrival course.jobs)

include sure

theorem each_of_arrival {outcome : Except ε α} {time : Nat}
    (came : some (outcome, time) ∈ courses.map Course.arrival) : each outcome := by
  obtain ⟨course, inside, same⟩ := List.mem_map.mp came
  exact (sure course inside).1 (outcome, time) same

/-- Members that settle, and not with what would settle their group at once, all come with contents of
one sort. -/
theorem exists_contents {members : List (Timed σ ε α)} (settle : members.map Timed.course = courses)
    (wrap : β → Except ε α)
    (wrapped : ∀ outcome time, some (outcome, time) ∈ courses.map Course.arrival →
      ∃ content, outcome = wrap content) :
    ∃ contents : List β, members.map Timed.outcome = contents.map wrap ∧
      contents.length = members.length ∧ ∀ content ∈ contents, each (wrap content) := by
  subst settle
  have came : ∀ member ∈ members, some (member.outcome, member.duration) ∈
      (members.map Timed.course).map Course.arrival :=
    fun member inside => List.mem_map_of_mem (List.mem_map_of_mem inside)
  have listed : members.map Timed.outcome ∈ Set.range (List.map wrap) := by
    rw [Set.range_list_map]
    intro outcome inside
    obtain ⟨member, within, rfl⟩ := List.mem_map.mp inside
    obtain ⟨content, same⟩ := wrapped _ _ (came member within)
    exact ⟨content, same.symm⟩
  obtain ⟨contents, same⟩ := listed
  refine ⟨contents, same.symm, by simpa using congrArg List.length same, fun content inside => ?_⟩
  have among : wrap content ∈ members.map Timed.outcome := same ▸ List.mem_map_of_mem inside
  obtain ⟨member, within, same⟩ := List.mem_map.mp among
  exact same ▸ each_of_arrival sure (came member within)

theorem all_sure_or_tied [Storable α σ] {possible : Except ε (List α) → Prop}
    (succeeds : ∀ values : List α, values.length = courses.length →
      (∀ value ∈ values, each (.ok value)) → possible (.ok values))
    (fails : ∀ error, each (.error error) → possible (.error error)) :
    Sure possible (Parallel.all (courses.map Course.future)) ∨
      Tied (Parallel.all (courses.map Course.future)) := by
  have decided := fun course inside => (sure course inside).2
  by_cases failing : ∃ outcome time, some (outcome, time) ∈ courses.map Course.arrival ∧ Fails outcome
  · rcases verdict_or_tie failing with ⟨outcome, time, verdict⟩ | tie
    · obtain ⟨error, rfl⟩ := verdict.fits
      exact .inl (sure_some (fails error (each_of_arrival sure verdict.arrives))
        (.allFails decided verdict))
    · exact .inr (.all decided tie)
  · push Not at failing
    rcases none_mem_or_timed courses with never | ⟨members, settle⟩
    · exact .inl (sure_none (.allNever decided ⟨never, failing⟩))
    · obtain ⟨values, same, length, all⟩ := exists_contents sure settle .ok fun outcome time came => by
        cases outcome with
        | ok value => exact ⟨value, rfl⟩
        | error error => exact absurd ⟨error, rfl⟩ (failing _ time came)
      subst settle
      rw [List.length_map] at succeeds
      rw [List.map_map]
      exact .inl (sure_some (succeeds values length all)
        (.all (fun member inside => decided _ (List.mem_map_of_mem inside)) same))

theorem any_sure_or_tied [Storable ε σ] {possible : Except (NoWinner ε) α → Prop}
    (succeeds : ∀ value, each (.ok value) → possible (.ok value))
    (fails : ∀ errors : List ε, errors.length = courses.length →
      (∀ error ∈ errors, each (.error error)) → possible (.error (.allFailed errors)))
    (none : courses = [] → possible (.error .empty)) :
    Sure possible (Parallel.any (courses.map Course.future)) ∨
      Tied (Parallel.any (courses.map Course.future)) := by
  have decided := fun course inside => (sure course inside).2
  by_cases succeeding : ∃ outcome time,
      some (outcome, time) ∈ courses.map Course.arrival ∧ Succeeds outcome
  · rcases verdict_or_tie succeeding with ⟨outcome, time, verdict⟩ | tie
    · obtain ⟨value, rfl⟩ := verdict.fits
      exact .inl (sure_some (succeeds value (each_of_arrival sure verdict.arrives))
        (.any decided verdict))
    · exact .inr (.any decided tie)
  · push Not at succeeding
    rcases none_mem_or_timed courses with never | ⟨members, settle⟩
    · exact .inl (sure_none (.anyNever decided ⟨never, succeeding⟩))
    · obtain ⟨errors, same, length, all⟩ :=
        exists_contents sure settle .error fun outcome time came => by
          cases outcome with
          | ok value => exact absurd ⟨value, rfl⟩ (succeeding _ time came)
          | error error => exact ⟨error, rfl⟩
      subst settle
      rcases eq_or_ne members [] with rfl | nonempty
      · exact .inl (sure_some (none rfl) .anyNone)
      · rw [List.length_map] at fails
        rw [List.map_map]
        exact .inl (sure_some (fails errors length all)
          (.anyFails nonempty (fun member inside => decided _ (List.mem_map_of_mem inside)) same))

theorem allSettled_sure [Storable (Except ε α) σ] {possible : Except ε (List (Except ε α)) → Prop}
    (may : ∀ outcomes : List (Except ε α), outcomes.length = courses.length →
      (∀ outcome ∈ outcomes, each outcome) → possible (.ok outcomes)) :
    Sure possible (Parallel.allSettled (courses.map Course.future)) := by
  have decided := fun course inside => (sure course inside).2
  rcases none_mem_or_timed courses with never | ⟨members, settle⟩
  · exact sure_none (.allSettledNever decided never)
  · obtain ⟨outcomes, same, length, all⟩ :=
      exists_contents sure settle id fun outcome _ _ => ⟨outcome, rfl⟩
    subst settle
    rw [List.length_map] at may
    rw [List.map_id] at same
    rw [List.map_map]
    exact sure_some (same ▸ may outcomes length all)
      (.allSettled fun member inside => decided _ (List.mem_map_of_mem inside))

theorem race_sure_or_tied (nonempty : courses ≠ []) :
    Sure each (Parallel.race (courses.map Course.future)) ∨
      Tied (Parallel.race (courses.map Course.future)) := by
  have decided := fun course inside => (sure course inside).2
  by_cases coming : ∃ outcome time, some (outcome, time) ∈ courses.map Course.arrival
  · have someone : ∃ outcome time, some (outcome, time) ∈ courses.map Course.arrival ∧ True := by
      simpa using coming
    rcases verdict_or_tie someone with ⟨outcome, time, verdict⟩ | tie
    · exact .inl (sure_some (each_of_arrival sure verdict.arrives) (.race decided verdict))
    · exact .inr (.race decided tie)
  · push Not at coming
    obtain ⟨course, inside⟩ := List.exists_mem_of_ne_nil courses nonempty
    have never : none ∈ courses.map Course.arrival := by
      have listed := List.mem_map_of_mem (f := Course.arrival) inside
      cases come : course.arrival with
      | none => exact come ▸ listed
      | some arrived => exact absurd (come ▸ listed) (coming arrived.1 arrived.2)
    exact .inl (sure_none (.raceNever decided
      ⟨never, fun outcome time came _ => coming outcome time came⟩))

end Members

/-- A pair comes to two values, to a failure or to nothing, unless its failures are tied. -/
theorem zip_sure_or_tied {ε α β : Type} [Storable α σ] [Storable β σ] {left : Future σ ε α}
    {right : Future σ ε β} {first : Except ε α → Prop} {second : Except ε β → Prop}
    {possible : Except ε (α × β) → Prop} (sureLeft : Sure first left) (sureRight : Sure second right)
    (succeeds : ∀ value other, first (.ok value) → second (.ok other) → possible (.ok (value, other)))
    (fails : ∀ error, first (.error error) ∨ second (.error error) → possible (.error error)) :
    Sure possible (Parallel.zip left right) ∨ Tied (Parallel.zip left right) := by
  obtain ⟨arrival, jobs, may, decidedLeft⟩ := sureLeft
  obtain ⟨arrival', jobs', may', decidedRight⟩ := sureRight
  by_cases failing : ∃ outcome time,
      some (outcome, time) ∈ [unvalued arrival, unvalued arrival'] ∧ Fails outcome
  · rcases verdict_or_tie failing with ⟨outcome, time, verdict⟩ | tie
    · obtain ⟨error, rfl⟩ := verdict.fits
      exact .inl (sure_some (fails error (verdict.failed.imp (may _) (may' _)))
        (.zipFails decidedLeft decidedRight verdict))
    · exact .inr (.zip decidedLeft decidedRight tie)
  · push Not at failing
    by_cases never : none ∈ [unvalued arrival, unvalued arrival']
    · exact .inl (sure_none (.zipNever decidedLeft decidedRight ⟨never, failing⟩))
    · match arrival, arrival' with
      | some (.ok value, time), some (.ok other, time') =>
        exact .inl (sure_some (succeeds value other (may _ rfl) (may' _ rfl))
          (.zip decidedLeft decidedRight))
      | some (.error error, time), _ =>
        exact absurd ⟨error, rfl⟩ (failing (.error error) time (List.mem_cons_self ..))
      | _, some (.error error, time) =>
        exact absurd ⟨error, rfl⟩
          (failing (.error error) time (List.mem_cons_of_mem _ (List.mem_singleton_self _)))
      | none, _ => exact absurd (List.mem_cons_self ..) never
      | _, none => exact absurd (List.mem_cons_of_mem _ (List.mem_singleton_self _)) never

/-- Whatever the constructors and combinators build is decided by the clock, unless a race is tied. -/
theorem Built.sure_or_tied {leaves : Leaves σ} (fixed : leaves.Fixed) {ε α : Type}
    {future : Future σ ε α} {possible : Except ε α → Prop} (built : Built leaves True future possible) :
    Sure possible future ∨ Tied future := by
  induction built with
  | leaf leaf =>
    obtain ⟨arrival, jobs, may, keeps⟩ := fixed leaf
    exact .inl ⟨arrival, jobs, may, .raw keeps⟩
  | settled may => exact .inl (sure_some may (.settled _))
  | settledAfter delay may => exact .inl (sure_some may (.settledAfter _ delay))
  | later _ ih =>
    rcases ih with ⟨arrival, jobs, may, decided⟩ | tied
    · exact .inl ⟨arrival, _, may, .later decided⟩
    · exact .inr (.later tied)
  | bindOutcome _ _ ihFirst ihStep =>
    rcases ihFirst with ⟨arrival, jobs, may, decided⟩ | tied
    · cases arrival with
      | none => exact .inl (sure_none (.bindNever decided))
      | some arrived =>
        rcases ihStep arrived.1 (may arrived rfl) with ⟨arrival', jobs', may', follows⟩ | tied
        · refine .inl ⟨_, _, fun last come => ?_, .bindOutcome decided follows⟩
          obtain ⟨inner, came, rfl⟩ := Option.map_eq_some_iff.mp come
          exact may' inner came
        · exact .inr (.step decided tied)
    · exact .inr (.first tied)
  | watched name _ ih =>
    rcases ih with ⟨arrival, jobs, may, decided⟩ | tied
    · exact .inl ⟨arrival, jobs, may, .watched name decided⟩
    · exact .inr (.watched name tied)
  | allSettled _ may ih =>
    rcases exists_sure_or_tied ih with ⟨courses, rfl, sure⟩ | ⟨future, inside, tied⟩
    · rw [List.length_map] at may
      exact .inl (allSettled_sure sure may)
    · exact .inr (.amongAllSettled inside tied)
  | all _ _ succeeds fails ih =>
    rcases exists_sure_or_tied ih with ⟨courses, rfl, sure⟩ | ⟨future, inside, tied⟩
    · rw [List.length_map] at succeeds
      exact all_sure_or_tied sure succeeds fails
    · exact .inr (.amongAll inside tied)
  | any _ _ succeeds fails none ih =>
    rcases exists_sure_or_tied ih with ⟨courses, rfl, sure⟩ | ⟨future, inside, tied⟩
    · rw [List.length_map] at fails
      exact any_sure_or_tied sure succeeds fails fun empty => none (by rw [empty]; rfl)
    · exact .inr (.amongAny inside tied)
  | race _ nonempty _ ih =>
    rcases exists_sure_or_tied ih with ⟨courses, rfl, sure⟩ | ⟨future, inside, tied⟩
    · exact race_sure_or_tied sure fun empty => nonempty (by rw [empty]; rfl)
    · exact .inr (.amongRace inside tied)
  | zip _ _ _ succeeds fails ihLeft ihRight =>
    rcases ihLeft with sureLeft | tied
    · rcases ihRight with sureRight | tied
      · exact zip_sure_or_tied sureLeft sureRight succeeds fails
      · exact .inr (.right tied)
    · exact .inr (.left tied)

end Deferred.Future
