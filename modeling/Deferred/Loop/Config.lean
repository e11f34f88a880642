import Deferred.Loop.Event
import Deferred.Text.Classes
import Deferred.Text.Digit

/-! The one setting of a loop: how many jobs may be scheduled before one of them is sent to the
low-priority queue. It can come from the environment, where a value that is no number of 64 bits is
reported and ignored. -/

namespace Deferred

structure Config where
  /-- The number of scheduled jobs that a loop may exceed by one before it diverts the next one. -/
  maxStreak : Nat := 2000
deriving DecidableEq, Repr

namespace Config

def limitVariable : String := "FUTURISTIC_MAX_LOOPS"

def limitBound : Nat := 18446744073709551616

inductive LimitError where
  | empty
  | invalidDigit
  | tooLarge
deriving DecidableEq, Repr

def LimitError.message : LimitError → String
  | .empty => "cannot parse integer from empty string"
  | .invalidDigit => "invalid digit found in string"
  | .tooLarge => "number too large to fit in target type"

/-- Reads digits from the left. The first character that is no digit or that makes the number too
large decides the error. -/
def readDigits : Nat → List Char → Except LimitError Nat
  | value, [] => .ok value
  | value, c :: rest =>
    match Text.digitValue? c with
    | none => .error .invalidDigit
    | some digit =>
      if value * 10 + digit < limitBound then readDigits (value * 10 + digit) rest
      else .error .tooLarge

def readLimit : List Char → Except LimitError Nat
  | [] => .error .empty
  | ['+'] => .error .invalidDigit
  | '+' :: digits => readDigits 0 digits
  | digits => readDigits 0 digits

def ofEnvironment (value : Option String) : Config × List Event :=
  match value with
  | none => ({}, [])
  | some raw =>
    match readLimit (Text.trimmed raw.toList) with
    | .ok maxStreak => ({ maxStreak }, [])
    | .error problem => ({}, [.invalidLimit limitVariable raw problem.message])

end Config

end Deferred
