import Deferred.Future.Parallel
import Deferred.Future.Sequential
import Deferred.Future.Tuple
import Deferred.Future.Watched

/-! The futures that are built by the constructors and combinators. Those that run one after another
are all made of `bindOutcome`, so there are few rules, and those for the other combinators follow. A rule
that goes on from an outcome needs its next future built only for the outcomes that are possible: that
way futures of futures are covered too. -/

namespace Deferred.Future

variable {σ : Type}

def Leaves (σ : Type) : Type 1 :=
  ∀ ε α : Type, Future σ ε α → (Except ε α → Prop) → Prop

/-- A future that is built from leaves, and the outcomes that it may have. Futures that race for the
common outcome are only allowed if `races` holds. -/
inductive Built (leaves : Leaves σ) (races : Prop) :
    ∀ {ε α : Type}, Future σ ε α → (Except ε α → Prop) → Prop
  | leaf {ε α : Type} {future : Future σ ε α} {possible} (leaf : leaves ε α future possible) :
      Built leaves races future possible
  | settled {ε α : Type} {outcome : Except ε α} {possible : Except ε α → Prop}
      (may : possible outcome) : Built leaves races (settled outcome) possible
  | settledAfter {ε α : Type} {outcome : Except ε α} {possible : Except ε α → Prop} (delay : Nat)
      (may : possible outcome) : Built leaves races (settledAfter outcome delay) possible
  | later {ε α : Type} {thunk : Unit → Future σ ε α} {possible}
      (built : Built leaves races (thunk ()) possible) : Built leaves races (later thunk) possible
  | bindOutcome {ε ε' α β : Type} {first : Future σ ε α} {step : Except ε α → Future σ ε' β}
      {before possible} (built : Built leaves races first before)
      (follows : ∀ outcome, before outcome → Built leaves races (step outcome) possible) :
      Built leaves races (first.bindOutcome step) possible
  | watched {ε α : Type} [Shown ε] [Shown α] {future : Future σ ε α} {possible} (name : String)
      (built : Built leaves races future possible) : Built leaves races (future.watched name) possible
  | allSettled {ε α : Type} [Storable (Except ε α) σ] {futures : List (Future σ ε α)} {each}
      {possible : Except ε (List (Except ε α)) → Prop}
      (built : ∀ future ∈ futures, Built leaves races future each)
      (may : ∀ outcomes : List (Except ε α), outcomes.length = futures.length →
        (∀ outcome ∈ outcomes, each outcome) → possible (.ok outcomes)) :
      Built leaves races (Parallel.allSettled futures) possible
  | all {ε α : Type} [Storable α σ] {futures : List (Future σ ε α)} {each}
      {possible : Except ε (List α) → Prop} (allowed : races)
      (built : ∀ future ∈ futures, Built leaves races future each)
      (succeeds : ∀ values : List α, values.length = futures.length →
        (∀ value ∈ values, each (.ok value)) → possible (.ok values))
      (fails : ∀ error, each (.error error) → possible (.error error)) :
      Built leaves races (Parallel.all futures) possible
  | any {ε α : Type} [Storable ε σ] {futures : List (Future σ ε α)} {each}
      {possible : Except (NoWinner ε) α → Prop} (allowed : races)
      (built : ∀ future ∈ futures, Built leaves races future each)
      (succeeds : ∀ value, each (.ok value) → possible (.ok value))
      (fails : ∀ errors : List ε, errors.length = futures.length →
        (∀ error ∈ errors, each (.error error)) → possible (.error (.allFailed errors)))
      (none : futures = [] → possible (.error .empty)) :
      Built leaves races (Parallel.any futures) possible
  /-- Only a race with a member is ever over. -/
  | race {ε α : Type} {futures : List (Future σ ε α)} {possible} (allowed : races)
      (nonempty : futures ≠ []) (built : ∀ future ∈ futures, Built leaves races future possible) :
      Built leaves races (Parallel.race futures) possible
  | zip {ε α β : Type} [Storable α σ] [Storable β σ] {left : Future σ ε α} {right : Future σ ε β}
      {first second} {possible : Except ε (α × β) → Prop} (allowed : races)
      (builtLeft : Built leaves races left first) (builtRight : Built leaves races right second)
      (succeeds : ∀ value other, first (.ok value) → second (.ok other) → possible (.ok (value, other)))
      (fails : ∀ error, first (.error error) ∨ second (.error error) → possible (.error error)) :
      Built leaves races (Parallel.zip left right) possible

namespace Built

variable {ε ε' α β γ : Type} {leaves : Leaves σ} {races : Prop} {before : Except ε α → Prop}
  {first : Future σ ε α}

theorem succeed {value : α} {possible : Except ε α → Prop} (may : possible (.ok value)) :
    Built leaves races (.succeed value) possible :=
  .settled may

theorem fail {error : ε} {possible : Except ε α → Prop} (may : possible (.error error)) :
    Built leaves races (.fail error) possible :=
  .settled may

theorem andThen {succeeded : α → Future σ ε' β} {failed : ε → Future σ ε' β}
    {possible : Except ε' β → Prop} (built : Built leaves races first before)
    (success : ∀ value, before (.ok value) → Built leaves races (succeeded value) possible)
    (failure : ∀ error, before (.error error) → Built leaves races (failed error) possible) :
    Built leaves races (first.andThen succeeded failed) possible := by
  refine .bindOutcome built fun outcome may => ?_
  cases outcome with
  | ok value => exact success value may
  | error error => exact failure error may

theorem bind {step : α → Future σ ε β} {possible : Except ε β → Prop}
    (built : Built leaves races first before)
    (follows : ∀ value, before (.ok value) → Built leaves races (step value) possible)
    (fails : ∀ error, before (.error error) → possible (.error error)) :
    Built leaves races (first.bind step) possible :=
  built.andThen follows fun error may => .fail (fails error may)

theorem map {f : α → β} {possible : Except ε β → Prop} (built : Built leaves races first before)
    (may : ∀ outcome, before outcome → possible (outcome.map f)) :
    Built leaves races (first.map f) possible :=
  built.andThen (fun value come => .succeed (may (.ok value) come))
    fun error come => .fail (may (.error error) come)

theorem mapError {f : ε → ε'} {possible : Except ε' α → Prop} (built : Built leaves races first before)
    (may : ∀ outcome, before outcome → possible (outcome.mapError f)) :
    Built leaves races (first.mapError f) possible :=
  built.andThen (fun value come => .succeed (may (.ok value) come))
    fun error come => .fail (may (.error error) come)

theorem timeout {delay : Nat} {error : ε} (allowed : races) (built : Built leaves races first before)
    (may : before (.error error)) : Built leaves races (first.timeout delay error) before := by
  refine .race allowed (List.cons_ne_nil _ _) fun future member => ?_
  rcases List.mem_cons.mp member with rfl | member
  · exact built
  · rw [List.mem_singleton.mp member]
    exact .settledAfter delay may

theorem firstSettled {futures : List (Future σ ε α)} {possible : Except (NoWinner ε) α → Prop}
    (allowed : races) (built : ∀ future ∈ futures, Built leaves races future before)
    (may : ∀ outcome, before outcome → possible (outcome.mapError .failed))
    (none : futures = [] → possible (.error .empty)) :
    Built leaves races (Parallel.firstSettled futures) possible := by
  cases futures with
  | nil => exact .fail (none rfl)
  | cons future futures =>
    refine .race allowed (List.cons_ne_nil _ _) fun wrapped member => ?_
    obtain ⟨future, inside, rfl⟩ := List.mem_map.mp member
    exact (built future inside).mapError may

section Sequential

variable {futures : List (Future σ ε α)}

theorem outcomesAfter {possible : Except ε (List (Except ε α)) → Prop} (seen : List (Except ε α))
    (built : ∀ future ∈ futures, Built leaves races future before)
    (may : ∀ outcomes : List (Except ε α), outcomes.length = futures.length →
      (∀ outcome ∈ outcomes, before outcome) → possible (.ok (seen.reverse ++ outcomes))) :
    Built leaves races (Sequential.outcomesAfter seen futures) possible := by
  induction futures generalizing seen with
  | nil => exact .succeed (by simpa using may [] rfl (by simp))
  | cons future futures ih =>
    refine .bindOutcome (built future (List.mem_cons_self ..)) fun outcome come => ?_
    refine ih _ (fun other member => built other (List.mem_cons_of_mem _ member))
      fun outcomes length each => ?_
    rw [List.reverse_cons, List.append_assoc]
    apply may (outcome :: outcomes) (congrArg (· + 1) length)
    intro other member
    rcases List.mem_cons.mp member with rfl | member
    · exact come
    · exact each other member

theorem sequentialAllSettled {possible : Except ε (List (Except ε α)) → Prop}
    (built : ∀ future ∈ futures, Built leaves races future before)
    (may : ∀ outcomes : List (Except ε α), outcomes.length = futures.length →
      (∀ outcome ∈ outcomes, before outcome) → possible (.ok outcomes)) :
    Built leaves races (Sequential.allSettled futures) possible :=
  outcomesAfter [] built may

theorem valuesAfter {possible : Except ε (List α) → Prop} (seen : List α)
    (built : ∀ future ∈ futures, Built leaves races future before)
    (succeeds : ∀ values : List α, values.length = futures.length →
      (∀ value ∈ values, before (.ok value)) → possible (.ok (seen.reverse ++ values)))
    (fails : ∀ error, before (.error error) → possible (.error error)) :
    Built leaves races (Sequential.valuesAfter seen futures) possible := by
  induction futures generalizing seen with
  | nil => exact .succeed (by simpa using succeeds [] rfl (by simp))
  | cons future futures ih =>
    refine (built future (List.mem_cons_self ..)).bind (fun value come => ?_) fails
    refine ih _ (fun other member => built other (List.mem_cons_of_mem _ member))
      fun values length each => ?_
    rw [List.reverse_cons, List.append_assoc]
    apply succeeds (value :: values) (congrArg (· + 1) length)
    intro other member
    rcases List.mem_cons.mp member with rfl | member
    · exact come
    · exact each other member

theorem sequentialAll {possible : Except ε (List α) → Prop}
    (built : ∀ future ∈ futures, Built leaves races future before)
    (succeeds : ∀ values : List α, values.length = futures.length →
      (∀ value ∈ values, before (.ok value)) → possible (.ok values))
    (fails : ∀ error, before (.error error) → possible (.error error)) :
    Built leaves races (Sequential.all futures) possible :=
  valuesAfter [] built succeeds fails

end Sequential

end Built

end Deferred.Future
