import Deferred.Future.Basic
import Deferred.Text.Shown

/-! Watched futures report in the journal what came of them and how long it took. -/

namespace Deferred.Future

variable {σ ε α : Type} [Shown ε] [Shown α]

def report (name : String) (elapsed : Nat) : Except ε α → Event
  | .ok value => .resolved name elapsed (shown value)
  | .error error => .failed name elapsed (shown error)

def watched (name : String) (future : Future σ ε α) : Future σ ε α :=
  ⟨fun next =>
    .now fun started =>
      future.run fun outcome =>
        .now fun ended => .record (report name (ended - started) outcome) (next outcome)⟩

end Deferred.Future
