import Deferred.Proofs.Future.Built
import Mathlib.Algebra.Ring.Nat

/-! What a future comes to and how long it takes, evaluated directly, without a loop: delays add up along
a sequence, and futures that run side by side take as long as the longest of them. The jobs that the
loop will need are counted along the way. On a loop a future does just that, in whatever order the loop
takes its jobs. -/

namespace Deferred.Future

variable {σ : Type}

structure Timed (σ ε α : Type) where
  future : Future σ ε α
  outcome : Except ε α
  duration : Nat
  jobs : Nat

def longest (durations : List Nat) : Nat :=
  durations.foldr max 0

def jobsTogether {ε α : Type} : List (Timed σ ε α) → Nat
  | [] => 1
  | members => (members.map Timed.jobs).sum

/-- A future comes to an outcome after some time and some jobs. -/
inductive Settles : ∀ {ε α : Type}, Future σ ε α → Except ε α → (duration jobs : Nat) → Prop
  | settled {ε α : Type} (outcome : Except ε α) : Settles (settled outcome) outcome 0 1
  | settledAfter {ε α : Type} (outcome : Except ε α) (delay : Nat) :
      Settles (settledAfter outcome delay) outcome delay 1
  | later {ε α : Type} {thunk : Unit → Future σ ε α} {outcome duration jobs}
      (settles : Settles (thunk ()) outcome duration jobs) :
      Settles (later thunk) outcome duration (1 + jobs)
  | bindOutcome {ε ε' α β : Type} {first : Future σ ε α} {step : Except ε α → Future σ ε' β}
      {outcome duration jobs outcome' duration' jobs'} (settles : Settles first outcome duration jobs)
      (follows : Settles (step outcome) outcome' duration' jobs') :
      Settles (first.bindOutcome step) outcome' (duration + duration') (1 + jobs + jobs')
  | watched {ε α : Type} [Shown ε] [Shown α] {future : Future σ ε α} {outcome duration jobs}
      (name : String) (settles : Settles future outcome duration jobs) :
      Settles (future.watched name) outcome duration jobs
  | allSettled {ε α : Type} [Storable (Except ε α) σ] {members : List (Timed σ ε α)}
      (settles : ∀ member ∈ members,
        Settles member.future member.outcome member.duration member.jobs) :
      Settles (Parallel.allSettled (members.map Timed.future))
        (.ok (members.map Timed.outcome) : Except ε (List (Except ε α)))
        (longest (members.map Timed.duration)) (jobsTogether members)

theorem le_longest {durations : List Nat} {duration : Nat} (member : duration ∈ durations) :
    duration ≤ longest durations := by
  induction durations with
  | nil => exact absurd member List.not_mem_nil
  | cons first rest ih =>
    rcases List.mem_cons.mp member with rfl | member
    · exact Nat.le_max_left ..
    · exact Nat.le_trans (ih member) (Nat.le_max_right ..)

theorem longest_le {durations : List Nat} {bound : Nat} (all : ∀ duration ∈ durations, duration ≤ bound) :
    longest durations ≤ bound := by
  induction durations with
  | nil => exact Nat.zero_le bound
  | cons first rest ih =>
    exact Nat.max_le.mpr ⟨all first (List.mem_cons_self ..),
      ih fun duration member => all duration (List.mem_cons_of_mem _ member)⟩

namespace Settles

variable {ε ε' α β γ : Type} {first : Future σ ε α} {value : α} {error : ε}
  {duration jobs duration' jobs' : Nat}

theorem succeed (value : α) : Settles (.succeed value : Future σ ε α) (.ok value) 0 1 :=
  .settled _

theorem fail (error : ε) : Settles (.fail error : Future σ ε α) (.error error) 0 1 :=
  .settled _

theorem succeedAfter (value : α) (delay : Nat) :
    Settles (.succeedAfter value delay : Future σ ε α) (.ok value) delay 1 :=
  .settledAfter _ delay

theorem andThen_ok {succeeded : α → Future σ ε' β} {failed : ε → Future σ ε' β} {outcome : Except ε' β}
    (settles : Settles first (.ok value) duration jobs)
    (follows : Settles (succeeded value) outcome duration' jobs') :
    Settles (first.andThen succeeded failed) outcome (duration + duration') (1 + jobs + jobs') :=
  .bindOutcome settles follows

theorem andThen_error {succeeded : α → Future σ ε' β} {failed : ε → Future σ ε' β}
    {outcome : Except ε' β} (settles : Settles first (.error error) duration jobs)
    (follows : Settles (failed error) outcome duration' jobs') :
    Settles (first.andThen succeeded failed) outcome (duration + duration') (1 + jobs + jobs') :=
  .bindOutcome settles follows

theorem bind_ok {step : α → Future σ ε β} {outcome : Except ε β}
    (settles : Settles first (.ok value) duration jobs)
    (follows : Settles (step value) outcome duration' jobs') :
    Settles (first.bind step) outcome (duration + duration') (1 + jobs + jobs') :=
  settles.andThen_ok follows

theorem bind_error {step : α → Future σ ε β} (settles : Settles first (.error error) duration jobs) :
    Settles (first.bind step) (.error error) duration (1 + jobs + 1) :=
  settles.andThen_error (.fail error)

theorem orElse_ok {recover : ε → Future σ ε' α} (settles : Settles first (.ok value) duration jobs) :
    Settles (first.orElse recover) (.ok value) duration (1 + jobs + 1) :=
  settles.andThen_ok (.succeed value)

theorem map {f : α → β} {outcome : Except ε α} (settles : Settles first outcome duration jobs) :
    Settles (first.map f) (outcome.map f) duration (1 + jobs + 1) := by
  cases outcome with
  | ok value =>
    have whole : Settles (first.map f) (.ok (f value)) (duration + 0) (1 + jobs + 1) :=
      settles.andThen_ok (Settles.succeed (f value))
    exact whole
  | error error => exact settles.andThen_error (.fail error)

theorem mapError {f : ε → ε'} {outcome : Except ε α} (settles : Settles first outcome duration jobs) :
    Settles (first.mapError f) (outcome.mapError f) duration (1 + jobs + 1) := by
  cases outcome with
  | ok value => exact settles.andThen_ok (.succeed value)
  | error error =>
    have whole : Settles (first.mapError f) (.error (f error)) (duration + 0) (1 + jobs + 1) :=
      settles.andThen_error (Settles.fail (f error))
    exact whole

section Sequential

def untilFailure : List (Timed σ ε α) → Except ε (List α) × Nat × Nat
  | [] => (.ok [], 0, 1)
  | member :: rest =>
    match member.outcome with
    | .ok value =>
      let (outcome, duration, jobs) := untilFailure rest
      (outcome.map (value :: ·), member.duration + duration, 1 + member.jobs + jobs)
    | .error error => (.error error, member.duration, 1 + member.jobs + 1)

variable {members : List (Timed σ ε α)}

theorem valuesAfter (seen : List α)
    (settles : ∀ member ∈ members,
      Settles member.future member.outcome member.duration member.jobs) :
    Settles (Sequential.valuesAfter seen (members.map Timed.future))
      ((untilFailure members).1.map (seen.reverse ++ ·)) (untilFailure members).2.1
      (untilFailure members).2.2 := by
  induction members generalizing seen with
  | nil =>
    simp only [untilFailure, Except.map, List.append_nil]
    exact .succeed seen.reverse
  | cons member rest ih =>
    have first := settles member (List.mem_cons_self ..)
    have follows := fun value =>
      ih (value :: seen) fun other inside => settles other (List.mem_cons_of_mem _ inside)
    rw [List.map_cons, Sequential.valuesAfter, untilFailure]
    cases come : member.outcome with
    | ok value =>
      rw [come] at first
      have same : (untilFailure rest).1.map ((value :: seen).reverse ++ ·) =
          ((untilFailure rest).1.map (value :: ·)).map (seen.reverse ++ ·) := by
        cases (untilFailure rest).1 with
        | ok values => simp [Except.map]
        | error error => rfl
      apply first.bind_ok
      rw [← same]
      exact follows value
    | error error =>
      rw [come] at first
      exact first.bind_error

theorem sequentialAll
    (settles : ∀ member ∈ members,
      Settles member.future member.outcome member.duration member.jobs) :
    Settles (Sequential.all (members.map Timed.future)) (untilFailure members).1
      (untilFailure members).2.1 (untilFailure members).2.2 := by
  have whole := valuesAfter [] settles
  have same : (untilFailure members).1.map ([].reverse ++ ·) = (untilFailure members).1 := by
    cases (untilFailure members).1 with
    | ok values => rfl
    | error error => rfl
  rwa [same] at whole

theorem outcomesAfter (seen : List (Except ε α))
    (settles : ∀ member ∈ members,
      Settles member.future member.outcome member.duration member.jobs) :
    Settles (Sequential.outcomesAfter seen (members.map Timed.future))
      (.ok (seen.reverse ++ members.map Timed.outcome)) (members.map Timed.duration).sum
      ((members.map fun member => 1 + member.jobs).sum + 1) := by
  induction members generalizing seen with
  | nil =>
    rw [List.map_nil, List.map_nil, List.append_nil]
    exact .succeed seen.reverse
  | cons member rest ih =>
    have first := settles member (List.mem_cons_self ..)
    have follows := ih (member.outcome :: seen) fun other inside =>
      settles other (List.mem_cons_of_mem _ inside)
    rw [List.reverse_cons, List.append_assoc] at follows
    rw [List.map_cons, List.map_cons, List.map_cons, List.map_cons, List.sum_cons, List.sum_cons,
      Nat.add_assoc]
    exact .bindOutcome first follows

theorem sequentialAllSettled
    (settles : ∀ member ∈ members,
      Settles member.future member.outcome member.duration member.jobs) :
    Settles (Sequential.allSettled (members.map Timed.future)) (.ok (members.map Timed.outcome))
      (members.map Timed.duration).sum ((members.map fun member => 1 + member.jobs).sum + 1) :=
  outcomesAfter [] settles

end Sequential

end Settles

end Deferred.Future
