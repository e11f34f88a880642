import Deferred.Future.Basic

/-! Futures that run one after another: each is started when the one before it has settled. -/

universe u

namespace Deferred.Sequential

variable {σ ε : Type} {α : Type u}

def outcomesAfter (seen : List (Except ε α)) :
    List (Future σ ε α) → Future σ ε (List (Except ε α))
  | [] => .succeed seen.reverse
  | future :: rest => future.bindOutcome fun outcome => outcomesAfter (outcome :: seen) rest

def allSettled (futures : List (Future σ ε α)) : Future σ ε (List (Except ε α)) :=
  outcomesAfter [] futures

def valuesAfter (seen : List α) : List (Future σ ε α) → Future σ ε (List α)
  | [] => .succeed seen.reverse
  | future :: rest => future.bind fun value => valuesAfter (value :: seen) rest

/-- The values of all futures, in their order, or the first failure, after which none is started. -/
def all (futures : List (Future σ ε α)) : Future σ ε (List α) :=
  valuesAfter [] futures

end Deferred.Sequential
