import Deferred.Text.Shown

/-! Why none of several futures won. -/

universe u

namespace Deferred

inductive NoWinner (ε : Type u) where
  /-- There was none. -/
  | empty
  /-- The first one to settle failed. -/
  | failed (error : ε)
  /-- All failed, with these errors in the order of the futures. -/
  | allFailed (errors : List ε)
deriving DecidableEq, Repr

namespace NoWinner

variable {ε : Type u} [Shown ε]

def message : NoWinner ε → String
  | .empty => "no computation to race"
  | .failed error => "first computation to settle failed: " ++ shown error
  | .allFailed errors => "all " ++ toString errors.length ++ " computations failed"

instance : Shown (NoWinner ε) :=
  ⟨fun
    | .empty => "Empty"
    | .failed error => "Failed(" ++ shown error ++ ")"
    | .allFailed errors => "AllFailed(" ++ shown errors ++ ")"⟩

end NoWinner

end Deferred
