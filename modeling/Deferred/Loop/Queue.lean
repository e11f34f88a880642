/-! First-in, first-out queues. The newest members are kept in reverse, so both ends cost constant
time on average; all that matters of a queue is the list `toList` of its members, oldest first. -/

namespace Deferred

/-- Members in the order in which they leave: `front`, then `back` from its end. -/
structure Queue (α : Type) where
  front : List α
  back : List α

namespace Queue

variable {α : Type}

def empty : Queue α := ⟨[], []⟩

def toList (queue : Queue α) : List α :=
  queue.front ++ queue.back.reverse

def length (queue : Queue α) : Nat :=
  queue.front.length + queue.back.length

def push (queue : Queue α) (member : α) : Queue α :=
  { queue with back := member :: queue.back }

def pop? (queue : Queue α) : Option (α × Queue α) :=
  match queue.front with
  | member :: front => some (member, { queue with front })
  | [] =>
    match queue.back.reverse with
    | member :: front => some (member, ⟨front, []⟩)
    | [] => none

@[simp] theorem toList_empty : (empty : Queue α).toList = [] := rfl

@[simp] theorem toList_push (queue : Queue α) (member : α) :
    (queue.push member).toList = queue.toList ++ [member] := by
  simp [push, toList]

@[simp] theorem length_toList (queue : Queue α) : queue.toList.length = queue.length := by
  simp [toList, length]

theorem pop?_eq_none_iff {queue : Queue α} : queue.pop? = none ↔ queue.toList = [] := by
  obtain ⟨front, back⟩ := queue
  cases front with
  | cons member front => simp [pop?, toList]
  | nil =>
    simp only [pop?, toList, List.nil_append]
    split
    next member rest reversed => simp [reversed]
    next reversed => simp [reversed]

theorem toList_of_pop? {queue rest : Queue α} {member : α}
    (popped : queue.pop? = some (member, rest)) : queue.toList = member :: rest.toList := by
  obtain ⟨front, back⟩ := queue
  cases front with
  | cons first front =>
    simp only [pop?, Option.some.injEq, Prod.mk.injEq] at popped
    obtain ⟨rfl, rfl⟩ := popped
    rfl
  | nil =>
    simp only [pop?] at popped
    split at popped
    next first reversedRest reversed =>
      simp only [Option.some.injEq, Prod.mk.injEq] at popped
      obtain ⟨rfl, rfl⟩ := popped
      simp [toList, reversed]
    next => simp at popped

end Queue

end Deferred
