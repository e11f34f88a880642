import Deferred.Text.Quoted

/-! What a loop records of its life. Most events have a line of their own in a trace; the start of a
job and a note in the user's log have none. -/

namespace Deferred

/-- How a job came to its queue: `diverted` if it was scheduled when the loop owed the low-priority
queue a turn, `timed` with its deadline and arming number. -/
inductive Route where
  | scheduled
  | diverted
  | deferred
  | yielded
  | timed (deadline number : Nat)
deriving DecidableEq, Repr

inductive Event where
  /-- A job was diverted to the low-priority queue after `streak` scheduled ones. -/
  | diverted (streak : Nat)
  /-- A timer was set for `delay` milliseconds. -/
  | armed (delay number : Nat)
  /-- A timer was due, and its job became ready. -/
  | fired (number : Nat)
  /-- A job was started. -/
  | started (ticket : Nat) (route : Route)
  /-- An outcome took its place among the outcomes of a group. -/
  | slotFilled (index remaining : Nat)
  /-- A failure settled a group that needs every success. -/
  | allFailed (index : Nat)
  /-- A success settled a group that needs only one. -/
  | anySucceeded (index : Nat)
  /-- The first outcome settled a race. -/
  | raceSettled (index : Nat)
  /-- An outcome came after its race had been settled. -/
  | lateDiscarded (index : Nat)
  /-- A watched future succeeded. -/
  | resolved (name : String) (elapsed : Nat) (value : String)
  /-- A watched future failed. -/
  | failed (name : String) (elapsed : Nat) (error : String)
  /-- A grammar rule got its body. -/
  | ruleDefined
  /-- The environment asked for a limit that cannot be read. -/
  | invalidLimit (name raw problem : String)
  /-- A line of the user's log. -/
  | note (text : String)
deriving DecidableEq, Repr

namespace Event

def thousandths (fraction : Nat) : String :=
  let digits := (toString (1000 + fraction)).toList.tail
  String.ofList (digits.reverse.dropWhile (· = '0')).reverse

def durationText (milliseconds : Nat) : String :=
  if milliseconds = 0 then "0ns"
  else if milliseconds < 1000 then s!"{milliseconds}ms"
  else
    let seconds := milliseconds / 1000
    let fraction := milliseconds % 1000
    if fraction = 0 then s!"{seconds}s" else toString seconds ++ "." ++ thousandths fraction ++ "s"

def line? : Event → Option String
  | .diverted streak => s!"TRACE yielding to the low-priority queue loops={streak}"
  | .armed delay number =>
    some ("TRACE timer armed duration=" ++ durationText delay ++ " seq=" ++ toString number)
  | .fired number => s!"TRACE timer fired seq={number}"
  | .started _ _ => none
  | .slotFilled index remaining => s!"TRACE slot filled index={index} remaining={remaining}"
  | .allFailed index => s!"DEBUG all: computation failed index={index}"
  | .anySucceeded index => s!"DEBUG any: settled with a success index={index}"
  | .raceSettled index => s!"DEBUG race settled index={index}"
  | .lateDiscarded index => s!"TRACE late outcome discarded index={index}"
  | .resolved name elapsed value =>
    some ("DEBUG future resolved future=" ++ Text.quotedString name ++ " elapsed_ms=" ++
      toString elapsed ++ " value=" ++ value)
  | .failed name elapsed error =>
    some ("DEBUG future failed future=" ++ Text.quotedString name ++ " elapsed_ms=" ++
      toString elapsed ++ " error=" ++ error)
  | .ruleDefined => "DEBUG forward rule defined"
  | .invalidLimit name raw problem =>
    s!"WARN ignoring invalid {name} value={raw} error={problem}"
  | .note _ => none

def note? : Event → Option String
  | .note text => some text
  | _ => none

end Event

end Deferred
