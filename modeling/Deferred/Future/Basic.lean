import Deferred.Loop.Run
import Deferred.Text.Shown

/-! Futures: computations that hand their outcome to a continuation on a later turn of the loop. A
future is the script that runs it, as a function of its continuation. Whatever follows a future is
scheduled as a job of its own, so no chain of futures is too long for the stack. -/

universe u v w

namespace Deferred

/-- A computation that succeeds with an `α` or fails with an `ε`, and may leave values of type `σ` on
the loop. -/
structure Future (σ ε : Type) (α : Type u) where
  /-- What running it does, given what is to be done with its outcome. -/
  run : (Except ε α → Script σ) → Script σ

namespace Future

variable {σ ε ε' : Type} {α : Type u} {β : Type v} {γ : Type w}

instance : Shown (Future σ ε α) :=
  ⟨fun _ => "Future \x7b resolve: \"<procedure>\" \x7d"⟩

def settled (outcome : Except ε α) : Future σ ε α :=
  ⟨fun next => .submit .scheduled (fun _ => next outcome) .done⟩

def succeed (value : α) : Future σ ε α :=
  settled (.ok value)

def fail (error : ε) : Future σ ε α :=
  settled (.error error)

def later (thunk : Unit → Future σ ε α) : Future σ ε α :=
  ⟨fun next => .submit .scheduled (fun _ => (thunk ()).run next) .done⟩

def settledAfter (outcome : Except ε α) (delay : Nat) : Future σ ε α :=
  ⟨fun next => .submit (.after delay) (fun _ => next outcome) .done⟩

def succeedAfter (value : α) (delay : Nat) : Future σ ε α :=
  settledAfter (.ok value) delay

def never : Future σ ε α :=
  ⟨fun _ => .done⟩

def stuck : Future σ ε α :=
  ⟨fun _ => .stuck⟩

def bindOutcome (first : Future σ ε α) (step : Except ε α → Future σ ε' β) : Future σ ε' β :=
  ⟨fun next =>
    .submit .scheduled (fun _ => first.run fun outcome => (step outcome).run next) .done⟩

def andThen (first : Future σ ε α) (succeeded : α → Future σ ε' β) (failed : ε → Future σ ε' β) :
    Future σ ε' β :=
  first.bindOutcome fun
    | .ok value => succeeded value
    | .error error => failed error

def bind (first : Future σ ε α) (step : α → Future σ ε β) : Future σ ε β :=
  first.andThen step fail

def orElse (first : Future σ ε α) (recover : ε → Future σ ε' α) : Future σ ε' α :=
  first.andThen succeed recover

def fallback (first other : Future σ ε α) : Future σ ε α :=
  first.orElse fun _ => other

def map (first : Future σ ε α) (f : α → β) : Future σ ε β :=
  first.andThen (fun value => succeed (f value)) fail

def mapError (first : Future σ ε α) (f : ε → ε') : Future σ ε' α :=
  first.andThen succeed fun error => fail (f error)

def join (nested : Future σ ε (Future σ ε α)) : Future σ ε α :=
  nested.bind fun inner => inner

def map2 (f : α → β → γ) (first : Future σ ε α) (second : Future σ ε β) : Future σ ε γ :=
  first.bind fun value => second.map fun other => f value other

def relabel (f : α → β) (future : Future σ ε α) : Future σ ε β :=
  ⟨fun next =>
    future.run fun
      | .ok value => next (.ok (f value))
      | .error error => next (.error error)⟩

def recording (events : List Event) (future : Future σ ε α) : Future σ ε α :=
  ⟨fun next => Script.recordAll events (future.run next)⟩

def noting (text : String) (future : Future σ ε α) : Future σ ε α :=
  future.recording [.note text]

/-- Makes a future from the bound that its host sets on searches. -/
def bounded (future : Nat → Future σ ε α) : Future σ ε α :=
  ⟨fun next => .budget fun bound => (future bound).run next⟩

instance : Monad (Future σ ε) where
  pure := succeed
  bind := bind
  map f future := future.map f

def awaitIn (future : Future σ ε α) (onSettled : Except ε α → Script σ) (onIdle : Script σ) :
    Script σ :=
  .hold fun waker =>
    (future.run fun outcome => .wake waker (fun _ => onSettled outcome) .done).andThen
      (.await waker fun woken => if woken then .done else onIdle)

theorem map_eq_bind (first : Future σ ε α) (f : α → β) :
    first.map f = first.bind fun value => succeed (f value) := rfl

end Future

end Deferred
