import Deferred.Future.WaitFor
import Deferred.Proofs.Loop.Moments

/-! What comes of running a future, wherever it is run: its continuation is called with an outcome, or is
dropped. Only this is said of a future, and how the sequential combinators make what comes of a whole from
what comes of its parts. The futures may be any; of the loops on which they are run it is asked that a
scheduled job gets its turn there. -/

universe u v

namespace Deferred

variable {σ ε κ : Type} {α : Type u} {β : Type v}

namespace Loop

def pursue (bound cell fuel count : Nat) (script : Script σ) (loop : Loop σ) : Option (Nat × Loop σ) :=
  (script.run (hostAt bound bound) loop).bind (driveWith (turn bound) (hasDelivery cell) fuel count)

def resume (bound cell fuel count : Nat) (next : Except ε α → Script σ) (loop : Loop σ) :
    Option (Except ε α) → Option (Nat × Loop σ)
  | some outcome => loop.pursue bound cell fuel count (next outcome)
  | none => some (count, loop)

end Loop

/-- Loops on which somebody waits for something to be put into a cell that is empty. They come in sorts: on all
loops of a sort it takes equally many turns until a scheduled job gets its turn, maybe behind other jobs, and the
loops are of one sort again then. -/
structure Hospitable (place : κ → Nat → Loop σ → Prop) : Prop where
  empty : ∀ {sort cell loop}, place sort cell loop → cell < loop.groups.size ∧ loop.group cell = .ofSize 1
  turn : ∀ sort, ∃ turns ran sort', ∀ {cell loop}, place sort cell loop → ∃ later, place sort' cell later ∧
    ∀ bound job fuel count,
      loop.pursue bound cell (fuel + turns) count (.submit .scheduled job .done) =
        later.pursue bound cell fuel (count + ran) (job ())

namespace Future

variable {place : κ → Nat → Loop σ → Prop}

/-- Running a future on one of these loops comes to the call of its continuation with an outcome, on one of these
loops again, or to an idle loop on which the continuation has not been called. What comes must not depend on the
bounds of searches once they are large enough; the future may depend on such a bound. Loops of one sort take equally
many turns. -/
def ComesTo (place : κ → Nat → Loop σ → Prop) (future : Nat → Future σ ε α)
    (result : Option (Except ε α)) : Prop :=
  ∀ sort, ∃ least turns ran sort', ∀ cell loop, place sort cell loop → ∃ later, place sort' cell later ∧
    ∀ search ≥ least, ∀ bound ≥ least, ∀ next fuel count,
      loop.pursue bound cell (fuel + turns) count ((future search).run next) =
        later.resume bound cell fuel (count + ran) next result

theorem comesTo_settled (hospitable : Hospitable place) (outcome : Except ε α) :
    ComesTo place (fun _ => settled outcome) (some outcome) := by
  intro sort
  obtain ⟨turns, ran, sort', turn⟩ := hospitable.turn sort
  refine ⟨0, turns, ran, sort', fun cell loop here => ?_⟩
  obtain ⟨later, there, taken⟩ := turn here
  exact ⟨later, there, fun _ _ bound _ next fuel count => taken bound _ fuel count⟩

theorem ComesTo.later {thunk : Unit → Future σ ε α} {result : Option (Except ε α)}
    (hospitable : Hospitable place) (comes : ComesTo place (fun _ => thunk ()) result) :
    ComesTo place (fun _ => Future.later thunk) result := by
  intro sort
  obtain ⟨turns, ran, sort', turn⟩ := hospitable.turn sort
  obtain ⟨least, turns', ran', sort'', comes⟩ := comes sort'
  refine ⟨least, turns' + turns, ran + ran', sort'', fun cell loop here => ?_⟩
  obtain ⟨later, there, taken⟩ := turn here
  obtain ⟨later', there', reached⟩ := comes cell later there
  refine ⟨later', there', fun search enough bound enough' next fuel count => ?_⟩
  rw [← Nat.add_assoc, ← Nat.add_assoc]
  exact (taken bound _ _ count).trans (reached search enough bound enough' next fuel _)

theorem ComesTo.bindOutcome {ε' : Type} {first : Nat → Future σ ε α}
    {step : Nat → Except ε α → Future σ ε' β} {outcome : Except ε α} {result : Option (Except ε' β)}
    (hospitable : Hospitable place) (comes : ComesTo place first (some outcome))
    (follows : ComesTo place (fun search => step search outcome) result) :
    ComesTo place (fun search => (first search).bindOutcome (step search)) result := by
  intro sort
  obtain ⟨turns, ran, started, turn⟩ := hospitable.turn sort
  obtain ⟨least, turns', ran', settled, comes⟩ := comes started
  obtain ⟨least', turns'', ran'', ended, follows⟩ := follows settled
  refine ⟨max least least', turns'' + turns' + turns, ran + ran' + ran'', ended, fun cell loop here => ?_⟩
  obtain ⟨start, there, taken⟩ := turn here
  obtain ⟨middle, there', reached⟩ := comes cell start there
  obtain ⟨later, there'', followed⟩ := follows cell middle there'
  refine ⟨later, there'', fun search enough bound enough' next fuel count => ?_⟩
  have enough := max_le_iff.mp enough
  have enough' := max_le_iff.mp enough'
  calc loop.pursue bound cell (fuel + (turns'' + turns' + turns)) count
        (((first search).bindOutcome (step search)).run next)
      = start.pursue bound cell (fuel + turns'' + turns') (count + ran)
          ((first search).run fun outcome => (step search outcome).run next) := by
        rw [← Nat.add_assoc, ← Nat.add_assoc]
        exact taken bound _ _ count
    _ = middle.pursue bound cell (fuel + turns'') (count + ran + ran') ((step search outcome).run next) :=
        reached search enough.1 bound enough'.1 _ _ _
    _ = later.resume bound cell fuel (count + (ran + ran' + ran'')) next result := by
        rw [followed search enough.2 bound enough'.2, Nat.add_assoc count, Nat.add_assoc count]

theorem ComesTo.bindOutcome_none {ε' : Type} {first : Nat → Future σ ε α}
    {step : Nat → Except ε α → Future σ ε' β} (hospitable : Hospitable place)
    (comes : ComesTo place first none) :
    ComesTo place (fun search => (first search).bindOutcome (step search)) none := by
  intro sort
  obtain ⟨turns, ran, started, turn⟩ := hospitable.turn sort
  obtain ⟨least, turns', ran', ended, comes⟩ := comes started
  refine ⟨least, turns' + turns, ran + ran', ended, fun cell loop here => ?_⟩
  obtain ⟨start, there, taken⟩ := turn here
  obtain ⟨later, there', reached⟩ := comes cell start there
  refine ⟨later, there', fun search enough bound enough' next fuel count => ?_⟩
  rw [← Nat.add_assoc, ← Nat.add_assoc]
  exact (taken bound _ _ count).trans (reached search enough bound enough' _ fuel _)

theorem ComesTo.relabel {future : Nat → Future σ ε α} {result : Option (Except ε α)} (f : α → β)
    (comes : ComesTo place future result) :
    ComesTo place (fun search => (future search).relabel f) (result.map (Except.map f)) := by
  intro sort
  obtain ⟨least, turns, ran, sort', comes⟩ := comes sort
  refine ⟨least, turns, ran, sort', fun cell loop here => ?_⟩
  obtain ⟨later, there, reached⟩ := comes cell loop here
  refine ⟨later, there, fun search enough bound enough' next fuel count => ?_⟩
  refine (reached search enough bound enough' _ fuel count).trans ?_
  rcases result with _ | _ | _ <;> rfl

/-- The bound that a future gets from its host may be any that is large enough. -/
theorem ComesTo.bounded {future : Nat → Future σ ε α} {result : Option (Except ε α)}
    (comes : ComesTo place future result) : ComesTo place (fun _ => Future.bounded future) result := by
  intro sort
  obtain ⟨least, turns, ran, sort', comes⟩ := comes sort
  refine ⟨least, turns, ran, sort', fun cell loop here => ?_⟩
  obtain ⟨later, there, reached⟩ := comes cell loop here
  refine ⟨later, there, fun _ _ bound enough next fuel count => ?_⟩
  have run := reached bound enough bound enough next fuel count
  rw [← run]
  unfold Future.bounded Loop.pursue
  rw [Script.run, Loop.hostAt_bound]

/-- If a search passes over one thing, the rest of it has a bound that is smaller by one. -/
theorem ComesTo.succ {future : Nat → Future σ ε α} {result : Option (Except ε α)}
    (comes : ComesTo place (fun search => future (search + 1)) result) : ComesTo place future result := by
  intro sort
  obtain ⟨least, turns, ran, sort', comes⟩ := comes sort
  refine ⟨least + 1, turns, ran, sort', fun cell loop here => ?_⟩
  obtain ⟨later, there, reached⟩ := comes cell loop here
  refine ⟨later, there, fun search enough bound enough' next fuel count => ?_⟩
  obtain ⟨rest, rfl⟩ := Nat.exists_eq_add_of_le' enough
  exact reached (rest + least) (Nat.le_add_left ..) bound (Nat.le_of_succ_le enough') next fuel count

theorem waitFor_eq_pursue {α : Type} [Storable (Except ε α) σ] (bound : Nat) (future : Future σ ε α)
    (loop : Loop σ) : loop.waitFor bound future =
      ((loop.gather (.ofSize 1)).pursue bound loop.groups.size bound 0
        (future.run (Loop.deliver loop.groups.size))).map fun found =>
          ⟨(found.2.group loop.groups.size).values.head?.bind load?, found.1,
            found.2.put loop.groups.size (.ofSize 0)⟩ := by
  unfold Loop.waitFor Loop.pursue Loop.perform Loop.drive
  simp only
  cases (future.run (Loop.deliver loop.groups.size)).run (Loop.hostAt bound bound)
      (loop.gather (.ofSize 1)) with
  | none => rfl
  | some middle =>
    simp only [Option.bind_some]
    cases Loop.driveWith (Loop.turn bound) (Loop.hasDelivery loop.groups.size) bound 0 middle <;> rfl

theorem waitFor_of_pursue {α : Type} [Storable (Except ε α) σ] {future : Future σ ε α} {bound ran : Nat}
    {loop after : Loop σ} (found : (loop.gather (.ofSize 1)).pursue bound loop.groups.size bound 0
      (future.run (Loop.deliver loop.groups.size)) = some (ran, after)) :
    loop.waitFor bound future = some ⟨(after.group loop.groups.size).values.head?.bind load?, ran,
      after.put loop.groups.size (.ofSize 0)⟩ := by
  rw [waitFor_eq_pursue, found]
  rfl

theorem pursue_deliver {α : Type} [Storable (Except ε α) σ] (bound fuel count : Nat) {cell : Nat} {loop : Loop σ}
    (inside : cell < loop.groups.size) (empty : loop.group cell = .ofSize 1) (outcome : Except ε α) :
    ∃ groups, loop.pursue bound cell (fuel + 1) count (Loop.deliver cell outcome) =
        some (count, { loop with groups }) ∧
      (({ loop with groups } : Loop σ).group cell).values.head?.bind load? = some outcome := by
  have filled : (loop.put cell ((loop.group cell).fill 0 (store outcome))).group cell =
      ⟨[some (store outcome)], 0, false⟩ := by
    rw [empty]
    simp [Loop.put, Loop.group, inside, Group.ofSize, Group.fill]
  refine ⟨(loop.put cell ((loop.group cell).fill 0 (store outcome))).groups, ?_, ?_⟩
  · have delivered : Loop.hasDelivery cell
        (loop.put cell ((loop.group cell).fill 0 (store outcome))) = true := by
      simp [Loop.hasDelivery, filled]
    simp only [Loop.pursue, Loop.deliver, Script.run, Option.bind_some, Loop.driveWith, delivered, if_true]
    rfl
  · have same : ({ loop with groups := (loop.put cell ((loop.group cell).fill 0 (store outcome))).groups } :
        Loop σ).group cell = ⟨[some (store outcome)], 0, false⟩ := filled
    simp [same, Group.values]

/-- Waiting for a future on one of these loops gives what comes of it, and leaves such a loop but for its groups. -/
theorem ComesTo.waitFor {α : Type} [Storable (Except ε α) σ] {future : Future σ ε α}
    {result : Option (Except ε α)} (hospitable : Hospitable place)
    (comes : ComesTo place (fun _ => future) result) (sort : κ) :
    ∃ least sort', ∀ loop : Loop σ, place sort loop.groups.size (loop.gather (.ofSize 1)) →
      ∀ bound ≥ least, ∃ ran later groups, place sort' loop.groups.size later ∧
        loop.waitFor bound future = some ⟨result, ran, { later with groups }⟩ := by
  obtain ⟨least, turns, ran, sort', comes⟩ := comes sort
  refine ⟨max least (turns + 1), sort', fun loop here bound enough => ?_⟩
  obtain ⟨later, there, reached⟩ := comes _ _ here
  obtain ⟨inside, empty⟩ := hospitable.empty there
  obtain ⟨enough, behind⟩ := max_le_iff.mp enough
  obtain ⟨fuel, same⟩ := Nat.exists_eq_add_of_le' behind
  have pursued := reached least (le_refl least) bound enough (Loop.deliver loop.groups.size) (fuel + 1) 0
  have turning : fuel + 1 + turns = bound := by omega
  rw [turning, Nat.zero_add] at pursued
  cases result with
  | none =>
    have waited := waitFor_of_pursue pursued
    rw [empty] at waited
    exact ⟨ran, later, _, there, waited⟩
  | some outcome =>
    obtain ⟨groups, delivered, held⟩ := pursue_deliver bound fuel ran inside empty outcome
    have waited := waitFor_of_pursue (pursued.trans delivered)
    rw [held] at waited
    exact ⟨ran, later, _, there, waited⟩

end Future

namespace Loop

structure Awaits (cell : Nat) (loop : Loop σ) : Prop where
  vacant : loop.Vacant
  inside : cell < loop.groups.size
  empty : loop.group cell = .ofSize 1

theorem Vacant.awaits {loop : Loop σ} (vacant : loop.Vacant) :
    (loop.gather (.ofSize 1)).Awaits loop.groups.size :=
  ⟨vacant.gather _, by simp [Loop.gather], by simp [Loop.group, Loop.gather]⟩

theorem not_hasDelivery {cell : Nat} {loop : Loop σ} (empty : loop.group cell = .ofSize 1) :
    hasDelivery cell loop = false := by
  rw [hasDelivery, empty]
  rfl

theorem pursue_start {bound cell fuel count : Nat} {loop popped : Loop σ} {job : Job σ}
    (empty : loop.group cell = .ofSize 1) (found : loop.next = .run job popped) :
    loop.pursue bound cell (fuel + 1) count .done =
      (popped.start job).pursue bound cell fuel (count + 1) (job.script ()) := by
  simp only [pursue, Script.run, Option.bind_some, driveWith, not_hasDelivery empty, turn, turnOn, found]
  cases (job.script ()).run (hostAt bound bound) (popped.start job) <;> rfl

theorem pursue_sleep {bound cell fuel count deadline : Nat} {loop : Loop σ}
    (empty : loop.group cell = .ofSize 1) (found : loop.next = .sleep deadline) :
    loop.pursue bound cell (fuel + 1) count .done =
      { loop with clock := deadline }.pursue bound cell fuel count .done := by
  simp only [pursue, Script.run, Option.bind_some, driveWith, not_hasDelivery empty, turn, turnOn, found]
  rfl

theorem eq_empty_of_toList {γ : Type} {queue : Queue γ} (none : queue.toList = []) : queue = .empty := by
  obtain ⟨front, back⟩ := queue
  obtain ⟨rfl, reversed⟩ := List.append_eq_nil_iff.mp none
  obtain rfl := List.reverse_eq_nil_iff.mp reversed
  rfl

theorem Vacant.submit_next {loop : Loop σ} (vacant : loop.Vacant) :
    ∃ later : Loop σ, later.Vacant ∧ later.groups = loop.groups ∧ ∀ script, ∃ job popped,
      (loop.submit .scheduled script).next = .run job popped ∧ job.script = script ∧
        popped.start job = later := by
  obtain ⟨config, ready, low, timers, streak, armed, clock, issued, groups, wakers, journal⟩ := loop
  obtain ⟨noneReady, noneLow, rfl⟩ := vacant
  obtain rfl := eq_empty_of_toList noneReady
  obtain rfl := eq_empty_of_toList noneLow
  by_cases diverts : config.maxStreak < streak
  · let popped : Loop σ := { config, armed, clock, groups, wakers, issued := issued + 1,
                             journal := (clock, .diverted streak) :: journal }
    refine ⟨popped.start ⟨issued, .diverted, fun _ => .done⟩, ⟨rfl, rfl, rfl⟩, rfl, fun script => ?_⟩
    refine ⟨⟨issued, .diverted, script⟩, popped, ?_, rfl, rfl⟩
    rw [submit, schedule, if_pos diverts]
    rfl
  · let popped : Loop σ := { config, armed, clock, groups, wakers, journal, issued := issued + 1,
                             streak := streak + 1 }
    refine ⟨popped.start ⟨issued, .scheduled, fun _ => .done⟩, ⟨rfl, rfl, rfl⟩, rfl, fun script => ?_⟩
    refine ⟨⟨issued, .scheduled, script⟩, popped, ?_, rfl, rfl⟩
    rw [submit, schedule, if_neg diverts]
    rfl

theorem Awaits.pursue_submit {cell : Nat} {loop : Loop σ} (here : Awaits cell loop) :
    ∃ later, Awaits cell later ∧ ∀ bound job fuel count,
      loop.pursue bound cell (fuel + 1) count (.submit .scheduled job .done) =
        later.pursue bound cell fuel (count + 1) (job ()) := by
  obtain ⟨later, vacant, groups, taken⟩ := here.vacant.submit_next
  have same : later.group cell = loop.group cell := by rw [group, group, groups]
  refine ⟨later, ⟨vacant, groups ▸ here.inside, same.trans here.empty⟩, fun bound script fuel count => ?_⟩
  obtain ⟨job, popped, found, rfl, rfl⟩ := taken script
  have waits : (loop.submit .scheduled job.script).group cell = .ofSize 1 := by
    obtain ⟨_, _, _, _, _, _, _, submitted⟩ := loop.submit_eq .scheduled job.script
    rw [submitted]
    exact here.empty
  exact pursue_start waits found

def Awaiting (_ : Unit) (cell : Nat) (loop : Loop σ) : Prop :=
  Awaits cell loop

theorem hospitable_awaits : Hospitable (Awaiting (σ := σ)) where
  empty here := ⟨here.inside, here.empty⟩
  turn _ := ⟨1, 1, (), fun here => Awaits.pursue_submit here⟩

theorem Vacant.setTimer_next {loop : Loop σ} (vacant : loop.Vacant) (delay : Nat) :
    ∃ later : Loop σ, later.Vacant ∧ later.groups = loop.groups ∧ ∀ script,
      (delay ≠ 0 → (loop.setTimer delay script).next = .sleep (loop.clock + delay)) ∧
      ∃ job popped, { loop.setTimer delay script with clock := loop.clock + delay }.next = .run job popped ∧
        job.script = script ∧ popped.start job = later := by
  obtain ⟨config, ready, low, timers, streak, armed, clock, issued, groups, wakers, journal⟩ := loop
  obtain ⟨noneReady, noneLow, rfl⟩ := vacant
  obtain rfl := eq_empty_of_toList noneReady
  obtain rfl := eq_empty_of_toList noneLow
  let popped : Loop σ := { config, streak, armed := armed + 1, clock := clock + delay, issued := issued + 1,
                           groups, wakers, journal := (clock + delay, .fired armed) ::
                             (clock, .armed delay armed) :: journal }
  refine ⟨popped.start ⟨issued, .timed (clock + delay) armed, fun _ => .done⟩, ⟨rfl, rfl, rfl⟩, rfl,
    fun script => ⟨fun waits => ?_, ⟨issued, .timed (clock + delay) armed, script⟩, popped, ?_, rfl, rfl⟩⟩
  · have early : ¬clock + delay ≤ clock := by omega
    simp [setTimer, next, popReady?, popLow?, Queue.pop?, Queue.empty, fireDue, insertTimer, record, early]
  · simp [setTimer, next, popReady?, Queue.pop?, Queue.empty, Queue.push, fireDue, insertTimer, record, issue,
      popped]

theorem Awaits.setTimer_next {cell : Nat} {loop : Loop σ} (here : Awaits cell loop) (delay : Nat) :
    ∃ later : Loop σ, Awaits cell later ∧ ∀ script,
      (delay ≠ 0 → (loop.setTimer delay script).next = .sleep (loop.clock + delay)) ∧
      ∃ job popped, { loop.setTimer delay script with clock := loop.clock + delay }.next = .run job popped ∧
        job.script = script ∧ popped.start job = later := by
  obtain ⟨later, vacant, groups, taken⟩ := here.vacant.setTimer_next delay
  have same : later.group cell = loop.group cell := by rw [group, group, groups]
  exact ⟨later, ⟨vacant, groups ▸ here.inside, same.trans here.empty⟩, taken⟩

theorem Awaits.pursue_done {bound cell fuel count : Nat} {loop : Loop σ} (here : Awaits cell loop) :
    loop.pursue bound cell (fuel + 1) count .done = some (count, loop) := by
  have idle : loop.turn bound = some (.idle, loop) := by
    rw [turn, turnOn, loop.next_eq_idle_iff.mpr here.vacant]
  simp [pursue, Script.run, driveWith, not_hasDelivery here.empty, idle]

end Loop

namespace Future

theorem ComesTo.eq_some {future : Nat → Future σ ε α} {outcome : Except ε α} {result : Option (Except ε α)}
    (comes : ComesTo Loop.Awaiting future (some outcome)) (comes' : ComesTo Loop.Awaiting future result) :
    result = some outcome := by
  classical
  have here : Loop.Awaits 0 (({} : Loop σ).gather (.ofSize 1)) := ⟨⟨rfl, rfl, rfl⟩, Nat.one_pos, rfl⟩
  obtain ⟨least, turns, ran, _, comes⟩ := comes ()
  obtain ⟨least', turns', ran', _, comes'⟩ := comes' ()
  obtain ⟨later, there, reached⟩ := comes 0 _ here
  obtain ⟨later', there', reached'⟩ := comes' 0 _ here
  -- A continuation that goes on for ever with this outcome, and ends with any other.
  let next (other : Except ε α) : Script σ := if other = outcome then .stuck else .done
  have run := reached (max least least') (le_max_left ..) (max least least') (le_max_left ..) next
    (turns' + 1) 0
  have run' := reached' (max least least') (le_max_right ..) (max least least') (le_max_right ..) next
    (turns + 1) 0
  have forever : later.resume (max least least') 0 (turns' + 1) (0 + ran) next (some outcome) = none := by
    simp [Loop.resume, Loop.pursue, next, Script.run]
  have turning : turns + 1 + turns' = turns' + 1 + turns := by omega
  rw [turning, run, forever] at run'
  by_contra other
  cases result with
  | none => cases run'
  | some outcome' =>
    have ends : next outcome' = .done := if_neg fun same => other (congrArg some same)
    rw [Loop.resume, ends, Loop.Awaits.pursue_done there'] at run'
    cases run'

theorem ComesTo.unique {future : Nat → Future σ ε α} {result result' : Option (Except ε α)}
    (comes : ComesTo Loop.Awaiting future result) (comes' : ComesTo Loop.Awaiting future result') :
    result = result' := by
  cases result with
  | some outcome => exact (comes.eq_some comes').symm
  | none =>
    cases result' with
    | none => rfl
    | some outcome => exact comes'.eq_some comes

end Future

inductive Fault (ε : Type) where
  | failed (error : ε)
  /-- The continuation has been dropped. -/
  | stuck

def Fault.outcome? : Except (Fault ε) α → Option (Except ε α)
  | .ok value => some (.ok value)
  | .error (.failed error) => some (.error error)
  | .error .stuck => none

theorem Fault.outcome?_injective : Function.Injective (outcome? (ε := ε) (α := α)) := by
  intro found found' same
  rcases found with (_ | _) | _ <;> rcases found' with (_ | _) | _ <;> cases same <;> rfl

theorem Fault.outcome?_map (f : α → β) (found : Except (Fault ε) α) :
    outcome? (found.map f) = (outcome? found).map (Except.map f) := by
  rcases found with (_ | _) | _ <;> rfl

namespace Future

variable {place : κ → Nat → Loop σ → Prop}

def Forces (place : κ → Nat → Loop σ → Prop) (future : Nat → Future σ ε α) (found : Except (Fault ε) α) : Prop :=
  ComesTo place future (Fault.outcome? found)

theorem Forces.unique {future : Nat → Future σ ε α} {found found' : Except (Fault ε) α}
    (forces : Forces Loop.Awaiting future found) (forces' : Forces Loop.Awaiting future found') :
    found = found' :=
  Fault.outcome?_injective (ComesTo.unique forces forces')

theorem comesTo_settledAfter (outcome : Except ε α) (delay : Nat) :
    ComesTo Loop.Awaiting (fun _ => (settledAfter outcome delay : Future σ ε α)) (some outcome) := by
  rintro ⟨⟩
  by_cases waits : delay = 0
  · subst waits
    refine ⟨0, 1, 1, (), fun cell loop here => ?_⟩
    obtain ⟨later, there, taken⟩ := Loop.Awaits.setTimer_next here 0
    refine ⟨later, there, fun _ _ bound _ next fuel count => ?_⟩
    obtain ⟨-, job, popped, found, script, rfl⟩ := taken fun _ => next outcome
    have begun : (loop.setTimer 0 fun _ => next outcome).pursue bound cell (fuel + 1) count .done =
        (popped.start job).pursue bound cell fuel (count + 1) (job.script ()) :=
      Loop.pursue_start here.empty found
    rw [script] at begun
    exact begun
  · refine ⟨0, 2, 1, (), fun cell loop here => ?_⟩
    obtain ⟨later, there, taken⟩ := Loop.Awaits.setTimer_next here delay
    refine ⟨later, there, fun _ _ bound _ next fuel count => ?_⟩
    obtain ⟨sleeps, job, popped, found, script, rfl⟩ := taken fun _ => next outcome
    let woken : Loop σ :=
      { loop.setTimer delay fun _ => next outcome with clock := loop.clock + delay }
    have slept : (loop.setTimer delay fun _ => next outcome).pursue bound cell (fuel + 2) count .done =
        woken.pursue bound cell (fuel + 1) count .done := Loop.pursue_sleep here.empty (sleeps waits)
    have begun : woken.pursue bound cell (fuel + 1) count .done =
        (popped.start job).pursue bound cell fuel (count + 1) (job.script ()) :=
      Loop.pursue_start here.empty found
    rw [script] at begun
    exact slept.trans begun

theorem forces_succeed (hospitable : Hospitable place) (value : α) :
    Forces place (fun _ => (succeed value : Future σ ε α)) (.ok value) :=
  comesTo_settled hospitable (.ok value)

theorem Forces.later {thunk : Unit → Future σ ε α} {found : Except (Fault ε) α} (hospitable : Hospitable place)
    (forces : Forces place (fun _ => thunk ()) found) : Forces place (fun _ => Future.later thunk) found :=
  ComesTo.later hospitable forces

theorem Forces.bind {first : Nat → Future σ ε α} {step : Nat → α → Future σ ε β} {value : α}
    {found : Except (Fault ε) β} (hospitable : Hospitable place) (forces : Forces place first (.ok value))
    (follows : Forces place (fun search => step search value) found) :
    Forces place (fun search => (first search).bind (step search)) found := by
  unfold Future.bind Future.andThen
  exact ComesTo.bindOutcome hospitable forces follows

theorem Forces.bind_fault {first : Nat → Future σ ε α} {fault : Fault ε} (hospitable : Hospitable place)
    (forces : Forces place first (.error fault)) (step : Nat → α → Future σ ε β) :
    Forces place (fun search => (first search).bind (step search)) (.error fault) := by
  unfold Future.bind Future.andThen
  cases fault with
  | failed error =>
    exact ComesTo.bindOutcome hospitable forces (comesTo_settled hospitable (.error error))
  | stuck => exact ComesTo.bindOutcome_none hospitable forces

theorem Forces.map {future : Nat → Future σ ε α} {found : Except (Fault ε) α}
    (hospitable : Hospitable place) (f : α → β) (forces : Forces place future found) :
    Forces place (fun search => (future search).map f) (found.map f) := by
  simp only [map_eq_bind]
  cases found with
  | ok value => exact forces.bind hospitable (forces_succeed hospitable (f value))
  | error fault => exact forces.bind_fault hospitable _

theorem Forces.relabel {future : Nat → Future σ ε α} {found : Except (Fault ε) α} (f : α → β)
    (forces : Forces place future found) :
    Forces place (fun search => (future search).relabel f) (found.map f) := by
  unfold Forces
  rw [Fault.outcome?_map]
  exact ComesTo.relabel f forces

theorem Forces.bounded {future : Nat → Future σ ε α} {found : Except (Fault ε) α}
    (forces : Forces place future found) : Forces place (fun _ => Future.bounded future) found :=
  ComesTo.bounded forces

theorem Forces.succ {future : Nat → Future σ ε α} {found : Except (Fault ε) α}
    (forces : Forces place (fun search => future (search + 1)) found) : Forces place future found :=
  ComesTo.succ forces

theorem forces_never : Forces (Loop.Awaiting (σ := σ)) (fun _ => (never : Future σ ε α)) (.error .stuck) := by
  rintro ⟨⟩
  refine ⟨0, 1, 0, (), fun cell loop here => ?_⟩
  exact ⟨loop, here, fun _ _ _ _ _ _ _ => Loop.Awaits.pursue_done here⟩

end Future

end Deferred
