import Deferred.Loop.Config
import Deferred.Loop.Group

/-! What a job does, one effect at a time. A script is a tree: each node asks the loop for one thing
and goes on with its answer. Jobs cannot share memory, so what outlives one of them is kept on the
loop: values that wait for others in a group, and the rest of a script that waits to be woken. -/

namespace Deferred

inductive Lane where
  /-- The high-priority queue, except for the job that the periodic yield diverts. -/
  | scheduled
  /-- The high-priority queue, always. -/
  | deferred
  /-- The low-priority queue. -/
  | yielded
  /-- The timers, for some milliseconds. -/
  | after (delay : Nat)
deriving DecidableEq, Repr

inductive Turn where
  | ran
  | slept
  | idle
deriving DecidableEq, Repr

structure Stats where
  ready : Nat
  low : Nat
  timers : Nat
  streak : Nat
deriving DecidableEq, Repr

/-- What a job does. The values that wait on the loop are of type `σ`. -/
inductive Script (σ : Type) : Type where
  /-- Ends the job. -/
  | done
  /-- Goes on for ever. -/
  | stuck
  /-- Submits a job. -/
  | submit (lane : Lane) (job : Unit → Script σ) (next : Script σ)
  /-- Reads the clock. -/
  | now (next : Nat → Script σ)
  /-- Adds to the journal. -/
  | record (event : Event) (next : Script σ)
  /-- Reads the journal, the latest entry first. -/
  | review (next : List (Nat × Event) → Script σ)
  /-- Makes a new group and gets its number. -/
  | gather (group : Group σ) (next : Nat → Script σ)
  /-- Reads a group. -/
  | look (group : Nat) (next : Group σ → Script σ)
  /-- Overwrites a group. -/
  | put (group : Nat) (content : Group σ) (next : Script σ)
  /-- Changes the settings. -/
  | configure (config : Config) (next : Script σ)
  /-- Reads the state of the queues and the settings. -/
  | inspect (next : Stats → Config → Script σ)
  /-- Makes one turn of the loop. -/
  | turn (next : Turn → Script σ)
  /-- Makes turns until the loop is idle and gets the number of jobs that they ran. -/
  | drain (next : Nat → Script σ)
  /-- Makes a new waker and gets its number. -/
  | hold (next : Nat → Script σ)
  /-- Gives a waker what is to be done once its sleeper gets control. -/
  | wake (waker : Nat) (rest : Unit → Script σ) (next : Script σ)
  /-- Makes turns until the waker has been given something, which is then done, or the loop is
  idle; the answer tells which. -/
  | await (waker : Nat) (next : Bool → Script σ)
  /-- Gets the bound that the host sets on any search. -/
  | budget (next : Nat → Script σ)

namespace Script

variable {σ : Type}

def andThen : Script σ → Script σ → Script σ
  | .done, last => last
  | .stuck, _ => .stuck
  | .submit lane job next, last => .submit lane job (next.andThen last)
  | .now next, last => .now fun time => (next time).andThen last
  | .record event next, last => .record event (next.andThen last)
  | .review next, last => .review fun journal => (next journal).andThen last
  | .gather group next, last => .gather group fun number => (next number).andThen last
  | .look group next, last => .look group fun content => (next content).andThen last
  | .put group content next, last => .put group content (next.andThen last)
  | .configure config next, last => .configure config (next.andThen last)
  | .inspect next, last => .inspect fun stats config => (next stats config).andThen last
  | .turn next, last => .turn fun turn => (next turn).andThen last
  | .drain next, last => .drain fun count => (next count).andThen last
  | .hold next, last => .hold fun waker => (next waker).andThen last
  | .wake waker rest next, last => .wake waker rest (next.andThen last)
  | .await waker next, last => .await waker fun woken => (next woken).andThen last
  | .budget next, last => .budget fun bound => (next bound).andThen last

def recordAll : List Event → Script σ → Script σ
  | [], next => next
  | event :: events, next => .record event (recordAll events next)

@[simp] theorem done_andThen (last : Script σ) : Script.done.andThen last = last := rfl

@[simp] theorem andThen_done (script : Script σ) : script.andThen .done = script := by
  induction script with
  | done | stuck => rfl
  | submit _ _ _ _ ih | record _ _ ih | put _ _ _ ih | configure _ _ ih => simp only [andThen, ih]
  | wake _ _ _ _ ih => simp only [andThen, ih]
  | now _ ih | review _ ih | gather _ _ ih | look _ _ ih | turn _ ih => simp only [andThen, ih]
  | drain _ ih | hold _ ih | await _ _ ih | budget _ ih => simp only [andThen, ih]
  | inspect _ ih => simp only [andThen, ih]

end Script

end Deferred
