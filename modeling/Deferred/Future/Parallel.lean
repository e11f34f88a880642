import Deferred.Future.Basic
import Deferred.Future.NoWinner
import Deferred.Loop.Storable

/-! Futures that run side by side. All are started at once, in order; what they come to waits in a
group on the loop until the common outcome is known, which is handed on once. None is ever stopped:
an outcome that comes later changes nothing. -/

namespace Deferred.Parallel

variable {σ ε ε' α β γ : Type}

def startAll (arrive : Nat → Except ε α → Script σ) : Nat → List (Future σ ε α) → Script σ
  | _, [] => .done
  | index, future :: rest =>
    (future.run (arrive index)).andThen (startAll arrive (index + 1) rest)

def sideBySide (content : Group σ)
    (arrive : (Except ε' γ → Script σ) → Nat → Nat → Except ε α → Script σ)
    (futures : List (Future σ ε α)) : Future σ ε' γ :=
  ⟨fun next => .gather content fun group => startAll (arrive next group) 0 futures⟩

/-- Futures that wait in a group of their number. Where there are none, `empty` is handed on. -/
def together (empty : Except ε' γ)
    (arrive : (Except ε' γ → Script σ) → Nat → Nat → Except ε α → Script σ)
    (futures : List (Future σ ε α)) : Future σ ε' γ :=
  if futures.isEmpty then .settled empty
  else sideBySide (.ofSize futures.length) arrive futures

theorem together_of_ne_nil {empty : Except ε' γ}
    {arrive : (Except ε' γ → Script σ) → Nat → Nat → Except ε α → Script σ}
    {futures : List (Future σ ε α)} (nonempty : futures ≠ []) :
    together empty arrive futures = sideBySide (.ofSize futures.length) arrive futures :=
  if_neg (by simpa using nonempty)

/-- Hands on the common outcome of a group unless that has been done, and then goes on according to
whether it was done here. -/
def handOnce (group : Nat) (handOn : Unit → Script σ) (after : Bool → Script σ) : Script σ :=
  .look group fun content =>
    if content.settled then after false
    else .put group content.settle ((handOn ()).andThen (after true))

def fillSlot [Storable β σ] (group index : Nat) (value : β) (handOn : List β → Script σ) :
    Script σ :=
  .look group fun content =>
    let filled := content.fill index (store value)
    .put group filled <|
      .record (.slotFilled index filled.remaining) <|
        if filled.remaining = 0 then
          .put group filled.emptied <|
            handOnce group (fun _ => handOn (filled.values.filterMap load?)) fun _ => .done
        else .done

def settledArrival [Storable (Except ε α) σ] (next : Except ε (List (Except ε α)) → Script σ)
    (group index : Nat) (outcome : Except ε α) : Script σ :=
  fillSlot group index outcome fun outcomes => next (.ok outcomes)

def allSettled [Storable (Except ε α) σ] (futures : List (Future σ ε α)) :
    Future σ ε (List (Except ε α)) :=
  together (.ok []) settledArrival futures

def allArrival [Storable α σ] (next : Except ε (List α) → Script σ) (group index : Nat) :
    Except ε α → Script σ
  | .ok value => fillSlot group index value fun values => next (.ok values)
  | .error error =>
    handOnce group (fun _ => next (.error error)) fun won =>
      if won then .record (.allFailed index) .done else .done

def all [Storable α σ] (futures : List (Future σ ε α)) : Future σ ε (List α) :=
  together (.ok []) allArrival futures

def anyArrival [Storable ε σ] (next : Except (NoWinner ε) α → Script σ) (group index : Nat) :
    Except ε α → Script σ
  | .ok value =>
    handOnce group (fun _ => next (.ok value)) fun won =>
      if won then .record (.anySucceeded index) .done else .done
  | .error error => fillSlot group index error fun errors => next (.error (.allFailed errors))

def any [Storable ε σ] (futures : List (Future σ ε α)) : Future σ (NoWinner ε) α :=
  together (.error .empty) anyArrival futures

def raceArrival (next : Except ε α → Script σ) (group index : Nat) (outcome : Except ε α) :
    Script σ :=
  handOnce group (fun _ => next outcome) fun won =>
    .record (if won then .raceSettled index else .lateDiscarded index) .done

/-- The first outcome to arrive. A race without futures is never over. -/
def race (futures : List (Future σ ε α)) : Future σ ε α :=
  sideBySide (.ofSize 0) raceArrival futures

def firstSettled (futures : List (Future σ ε α)) : Future σ (NoWinner ε) α :=
  if futures.isEmpty then .fail .empty
  else race (futures.map fun future => future.mapError .failed)

theorem firstSettled_of_ne_nil {futures : List (Future σ ε α)} (nonempty : futures ≠ []) :
    firstSettled futures = race (futures.map (Future.mapError · .failed)) :=
  if_neg (by simpa using nonempty)

def bothValues [Storable α σ] [Storable β σ] (content : Group σ) : Option (α × β) :=
  match content.slots with
  | [some left, some right] => do return (← load? left, ← load? right)
  | _ => none

def settlePair [Storable α σ] [Storable β σ] (next : Except ε (α × β) → Script σ) (group : Nat)
    (content : Group σ) : Script σ :=
  match (bothValues content : Option (α × β)) with
  | some both =>
    .put group { content with slots := [none, none] } <|
      handOnce group (fun _ => next (.ok both)) fun _ => .done
  | none => .put group content .done

def leftArrival [Storable α σ] [Storable β σ] (next : Except ε (α × β) → Script σ) (group : Nat) :
    Except ε α → Script σ
  | .ok value => .look group fun content => settlePair next group (content.fill 0 (store value))
  | .error error => handOnce group (fun _ => next (.error error)) fun _ => .done

def rightArrival [Storable α σ] [Storable β σ] (next : Except ε (α × β) → Script σ) (group : Nat) :
    Except ε β → Script σ
  | .ok value => .look group fun content => settlePair next group (content.fill 1 (store value))
  | .error error => handOnce group (fun _ => next (.error error)) fun _ => .done

def zip [Storable α σ] [Storable β σ] (left : Future σ ε α) (right : Future σ ε β) :
    Future σ ε (α × β) :=
  ⟨fun next =>
    .gather (.ofSize 2) fun group =>
      (left.run (leftArrival next group)).andThen (right.run (rightArrival next group))⟩

end Deferred.Parallel

namespace Deferred.Future

variable {σ ε α : Type}

def timeout (future : Future σ ε α) (delay : Nat) (error : ε) : Future σ ε α :=
  Parallel.race [future, settledAfter (.error error) delay]

end Deferred.Future
