/-! Values that arrive out of order wait in a group until all of them are there. Of each group the loop
keeps the slots for the values, the number of arrivals to come, and whether the group is settled. -/

namespace Deferred

structure Group (σ : Type) where
  slots : List (Option σ)
  /-- The number of arrivals that are still expected. -/
  remaining : Nat
  /-- Whether the common outcome has been handed on. -/
  settled : Bool := false

namespace Group

variable {σ : Type}

def ofSize (size : Nat) : Group σ :=
  { slots := List.replicate size none, remaining := size }

def fill (group : Group σ) (index : Nat) (value : σ) : Group σ :=
  { group with
    slots := group.slots.set index (some value)
    remaining := group.remaining - 1 }

def settle (group : Group σ) : Group σ :=
  { group with settled := true }

def values (group : Group σ) : List σ :=
  group.slots.filterMap id

def emptied (group : Group σ) : Group σ :=
  { group with slots := [] }

end Group

end Deferred
