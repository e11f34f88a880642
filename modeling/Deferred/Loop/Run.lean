import Deferred.Loop.Basic

/-! Running a loop. A job may itself make turns of the loop it runs on, so a turn is defined by the
depth of such nesting, and a run of turns by their number. One bound serves both; a run that needs
more has no result. -/

namespace Deferred

/-- What a running script gets from the loop under it: further turns, the completion of another
script, and a bound on searches. -/
structure Host (σ : Type) where
  turn : Loop σ → Option (Turn × Loop σ)
  finish : Script σ → Loop σ → Option (Loop σ)
  bound : Nat

namespace Loop

variable {σ : Type}

def driveWith (turn : Loop σ → Option (Turn × Loop σ)) (halt : Loop σ → Bool) :
    Nat → Nat → Loop σ → Option (Nat × Loop σ)
  | 0, _, _ => none
  | bound + 1, ran, loop =>
    if halt loop then some (ran, loop)
    else
      match turn loop with
      | none => none
      | some (.ran, loop) => driveWith turn halt bound (ran + 1) loop
      | some (.slept, loop) => driveWith turn halt bound ran loop
      | some (.idle, loop) => some (ran, loop)

end Loop

namespace Script

variable {σ : Type}

/-- Runs a script to its end. There is no result if it never ends or needs more than the host
gives. -/
def run (host : Host σ) : Script σ → Loop σ → Option (Loop σ)
  | .done, loop => some loop
  | .stuck, _ => none
  | .submit lane job next, loop => next.run host (loop.submit lane job)
  | .now next, loop => (next loop.clock).run host loop
  | .record event next, loop => next.run host (loop.record event)
  | .review next, loop => (next loop.journal).run host loop
  | .gather group next, loop => (next loop.groups.size).run host (loop.gather group)
  | .look number next, loop => (next (loop.group number)).run host loop
  | .put number content next, loop => next.run host (loop.put number content)
  | .configure config next, loop => next.run host { loop with config }
  | .inspect next, loop => (next loop.stats loop.config).run host loop
  | .turn next, loop =>
    match host.turn loop with
    | none => none
    | some (outcome, loop) => (next outcome).run host loop
  | .drain next, loop =>
    match Loop.driveWith host.turn (fun _ => false) host.bound 0 loop with
    | none => none
    | some (ran, loop) => (next ran).run host loop
  | .hold next, loop => (next loop.wakers.size).run host loop.hold
  | .wake waker rest next, loop => next.run host (loop.wake waker rest)
  | .await waker next, loop =>
    match Loop.driveWith host.turn (fun loop => (loop.rest? waker).isSome) host.bound 0 loop with
    | none => none
    | some (_, loop) =>
      match loop.rest? waker with
      | none => (next false).run host loop
      | some rest =>
        match host.finish (rest ()) (loop.clearWaker waker) with
        | none => none
        | some loop => (next true).run host loop
  | .budget next, loop => (next host.bound).run host loop

end Script

namespace Loop

variable {σ : Type}

def turnOn (host : Host σ) (loop : Loop σ) : Option (Turn × Loop σ) :=
  match loop.next with
  | .run job loop => ((job.script ()).run host (loop.start job)).map fun loop => (.ran, loop)
  | .sleep deadline => some (.slept, { loop with clock := deadline })
  | .idle => some (.idle, loop)

def hostAt (bound : Nat) : (depth : Nat) → Host σ
  | 0 => ⟨fun _ => none, fun _ _ => none, bound⟩
  | depth + 1 =>
    { turn := fun loop => loop.turnOn (hostAt bound depth)
      finish := fun script loop => script.run (hostAt bound depth) loop
      bound }

def turn (bound : Nat) (loop : Loop σ) : Option (Turn × Loop σ) :=
  loop.turnOn (hostAt bound bound)

def perform (bound : Nat) (script : Script σ) (loop : Loop σ) : Option (Loop σ) :=
  script.run (hostAt bound bound) loop

def drive (bound : Nat) (halt : Loop σ → Bool) (loop : Loop σ) : Option (Nat × Loop σ) :=
  driveWith (turn bound) halt bound 0 loop

def drain (bound : Nat) (loop : Loop σ) : Option (Nat × Loop σ) :=
  loop.drive bound fun _ => false

end Loop

end Deferred
