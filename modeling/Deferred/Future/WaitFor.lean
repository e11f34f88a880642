import Deferred.Future.Basic
import Deferred.Loop.Storable

/-! Running a loop until a future has settled. -/

namespace Deferred

/-- What came of waiting for a future: its outcome, if it settled before the loop was idle, and the
number of jobs that the loop ran meanwhile. -/
structure Waited (σ ε α : Type) where
  outcome : Option (Except ε α)
  ran : Nat
  loop : Loop σ

namespace Loop

variable {σ ε α : Type}

def deliver [Storable (Except ε α) σ] (number : Nat) (outcome : Except ε α) : Script σ :=
  .look number fun content => .put number (content.fill 0 (store outcome)) .done

def hasDelivery (number : Nat) (loop : Loop σ) : Bool :=
  (loop.group number).slots.any Option.isSome

def waitFor [Storable (Except ε α) σ] (bound : Nat) (future : Future σ ε α) (loop : Loop σ) :
    Option (Waited σ ε α) :=
  let number := loop.groups.size
  match (loop.gather (.ofSize 1)).perform bound (future.run (deliver number)) with
  | none => none
  | some loop =>
    match loop.drive bound (hasDelivery number) with
    | none => none
    | some (ran, loop) =>
      let outcome := (loop.group number).values.head?.bind load?
      some ⟨outcome, ran, loop.put number (.ofSize 0)⟩

end Loop

end Deferred
