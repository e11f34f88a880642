import Deferred.FutureList.Basic
import Deferred.Source.Input

/-! Grammars all of whose readings are wanted. Where a grammar can read a text in several ways, the
readings come as a lazy list, in the order in which a search from left to right finds them. -/

namespace Deferred

inductive Ambiguous : Type → Type 1 where
  /-- Reads nothing. -/
  | zero {α : Type} : Ambiguous α
  /-- Reads one character. -/
  | item : Ambiguous Char
  /-- Reads the empty text. -/
  | pure {α : Type} (value : α) : Ambiguous α
  /-- The readings of one grammar, and then those of another. -/
  | plus {α : Type} (first second : Ambiguous α) : Ambiguous α
  /-- Behind each reading, the readings of what follows from its value. -/
  | bind {α β : Type} (first : Ambiguous α) (next : α → Ambiguous β) : Ambiguous β
  /-- Changes the value of each reading. -/
  | map {α β : Type} (f : α → β) (grammar : Ambiguous α) : Ambiguous β
  /-- Any number of readings, one behind the other; of each, those with more follow first. -/
  | many {α : Type} (item : Ambiguous α) : Ambiguous (List α)

abbrev Readings (σ α : Type) : Type 1 :=
  FutureList.{0, 0} σ Empty (α × Input)

namespace Ambiguous

variable {σ α β : Type}

def sat (accepts : Char → Bool) : Ambiguous Char :=
  item.bind fun c => if accepts c then pure c else zero

def char (expected : Char) : Ambiguous Char :=
  sat (· == expected)

def seq (first : Ambiguous α) (second : Ambiguous β) : Ambiguous (α × β) :=
  first.bind fun left => second.map fun right => (left, right)

def seqLeft (first : Ambiguous α) (second : Ambiguous β) : Ambiguous α :=
  first.bind fun left => second.map fun _ => left

def seqRight (first : Ambiguous α) (second : Ambiguous β) : Ambiguous β :=
  first.bind fun _ => second

/-- The readings of a repetition. An item that consumes something can be read at most as often as there
are characters left, which is the bound; an item that does not has no end of readings. -/
def manyReadings (item : Input → Readings σ α) : (left : Nat) → Input → Readings σ (List α)
  | left, input =>
    ((item input).flatMap fun (value, rest) =>
        match left with
        | 0 => .stuck
        | left + 1 =>
          (manyReadings item left rest).map fun (values, next) => (value :: values, next)).append
      (.singleton ([], input))

def readings : {α : Type} → Ambiguous α → Input → Readings σ α
  | _, .zero, _ => .nil
  | _, .item, input =>
    match input.advance with
    | some reading => .singleton reading
    | none => .nil
  | _, .pure value, input => .singleton (value, input)
  | _, .plus first second, input => (first.readings input).append (second.readings input)
  | _, .bind first next, input =>
    (first.readings input).flatMap fun (value, rest) => (next value).readings rest
  | _, .map f grammar, input =>
    (grammar.readings input).map fun (value, rest) => (f value, rest)
  | _, .many repeated, input => manyReadings repeated.readings input.remaining input

def parseAll (grammar : Ambiguous α) (input : Input) : Future σ Empty (List (α × Input)) :=
  FutureList.toList (grammar.readings input)

end Ambiguous

end Deferred
