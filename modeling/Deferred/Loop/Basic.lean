import Deferred.Loop.Queue
import Deferred.Loop.Script

/-! The state of a cooperative event loop: a high-priority queue, a low-priority queue and the timers,
on a clock that moves only when the loop sleeps. A turn takes the oldest job of the high-priority
queue; only when that queue is empty are the timers looked at, and only when none is due does a
low-priority job get its turn. -/

namespace Deferred

/-- A submitted job. Its ticket is the number of submissions before it. -/
structure Job (σ : Type) where
  ticket : Nat
  route : Route
  script : Unit → Script σ

structure Timer (σ : Type) where
  deadline : Nat
  number : Nat
  job : Job σ

/-- An event loop. Times are in milliseconds. -/
structure Loop (σ : Type) where
  config : Config := {}
  /-- The high-priority queue. -/
  ready : Queue (Job σ) := .empty
  /-- The low-priority queue. -/
  low : Queue (Job σ) := .empty
  /-- The pending timers, the earliest deadline first and equal ones in arming order. -/
  timers : List (Timer σ) := []
  /-- The number of jobs scheduled since the last periodic yield. -/
  streak : Nat := 0
  /-- The number of timers armed so far. -/
  armed : Nat := 0
  clock : Nat := 0
  /-- The number of jobs submitted so far. -/
  issued : Nat := 0
  groups : Array (Group σ) := #[]
  wakers : Array (Option (Unit → Script σ)) := #[]
  /-- What happened and when, the latest first. -/
  journal : List (Nat × Event) := []

inductive Duty (σ : Type) where
  | run (job : Job σ) (loop : Loop σ)
  | sleep (deadline : Nat)
  | idle

namespace Loop

variable {σ : Type}

def record (loop : Loop σ) (event : Event) : Loop σ :=
  { loop with journal := (loop.clock, event) :: loop.journal }

def events (loop : Loop σ) : List (Nat × Event) :=
  loop.journal.reverse

/-- Puts a timer behind those that are not due later than it. -/
def insertTimer (timer : Timer σ) : List (Timer σ) → List (Timer σ)
  | [] => [timer]
  | other :: rest =>
    if other.deadline ≤ timer.deadline then other :: insertTimer timer rest
    else timer :: other :: rest

def issue (loop : Loop σ) (route : Route) (script : Unit → Script σ) : Job σ :=
  ⟨loop.issued, route, script⟩

/-- Submits a job that may be diverted: once more jobs than the limit have been scheduled, the next
one goes to the low-priority queue and the count starts again. -/
def schedule (loop : Loop σ) (script : Unit → Script σ) : Loop σ :=
  if loop.config.maxStreak < loop.streak then
    { loop.record (.diverted loop.streak) with
      streak := 0
      low := loop.low.push (loop.issue .diverted script)
      issued := loop.issued + 1 }
  else
    { loop with
      streak := loop.streak + 1
      ready := loop.ready.push (loop.issue .scheduled script)
      issued := loop.issued + 1 }

def defer (loop : Loop σ) (script : Unit → Script σ) : Loop σ :=
  { loop with
    ready := loop.ready.push (loop.issue .deferred script)
    issued := loop.issued + 1 }

def submitLow (loop : Loop σ) (script : Unit → Script σ) : Loop σ :=
  { loop with
    low := loop.low.push (loop.issue .yielded script)
    issued := loop.issued + 1 }

def setTimer (loop : Loop σ) (delay : Nat) (script : Unit → Script σ) : Loop σ :=
  let deadline := loop.clock + delay
  let timer := ⟨deadline, loop.armed, loop.issue (.timed deadline loop.armed) script⟩
  { loop.record (.armed delay loop.armed) with
    timers := insertTimer timer loop.timers
    armed := loop.armed + 1
    issued := loop.issued + 1 }

def submit (loop : Loop σ) : Lane → (Unit → Script σ) → Loop σ
  | .scheduled, script => loop.schedule script
  | .deferred, script => loop.defer script
  | .yielded, script => loop.submitLow script
  | .after delay, script => loop.setTimer delay script

def fireDue (loop : Loop σ) : List (Timer σ) → Loop σ
  | [] => { loop with timers := [] }
  | timer :: rest =>
    if timer.deadline ≤ loop.clock then
      fireDue { loop.record (.fired timer.number) with ready := loop.ready.push timer.job } rest
    else { loop with timers := timer :: rest }

def popReady? (loop : Loop σ) : Option (Job σ × Loop σ) :=
  loop.ready.pop?.map fun (job, ready) => (job, { loop with ready })

def popLow? (loop : Loop σ) : Option (Job σ × Loop σ) :=
  loop.low.pop?.map fun (job, low) => (job, { loop with low })

def next (loop : Loop σ) : Duty σ :=
  match loop.popReady? with
  | some (job, loop) => .run job loop
  | none =>
    let loop := loop.fireDue loop.timers
    match loop.popReady? with
    | some (job, loop) => .run job loop
    | none =>
      match loop.popLow? with
      | some (job, loop) => .run job loop
      | none =>
        match loop.timers with
        | timer :: _ => .sleep timer.deadline
        | [] => .idle

def stats (loop : Loop σ) : Stats :=
  ⟨loop.ready.length, loop.low.length, loop.timers.length, loop.streak⟩

def gather (loop : Loop σ) (group : Group σ) : Loop σ :=
  { loop with groups := loop.groups.push group }

def group (loop : Loop σ) (number : Nat) : Group σ :=
  loop.groups[number]?.getD (.ofSize 0)

def put (loop : Loop σ) (number : Nat) (content : Group σ) : Loop σ :=
  { loop with groups := loop.groups.setIfInBounds number content }

def hold (loop : Loop σ) : Loop σ :=
  { loop with wakers := loop.wakers.push none }

def rest? (loop : Loop σ) (waker : Nat) : Option (Unit → Script σ) :=
  loop.wakers[waker]?.join

def wake (loop : Loop σ) (waker : Nat) (rest : Unit → Script σ) : Loop σ :=
  { loop with wakers := loop.wakers.setIfInBounds waker (some rest) }

def clearWaker (loop : Loop σ) (waker : Nat) : Loop σ :=
  { loop with wakers := loop.wakers.setIfInBounds waker none }

def start (loop : Loop σ) (job : Job σ) : Loop σ :=
  loop.record (.started job.ticket job.route)

end Loop

end Deferred
