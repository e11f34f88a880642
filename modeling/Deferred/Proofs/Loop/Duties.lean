import Deferred.Loop.Run
import Mathlib.Tactic.ByContra

/-! What the next turn of a loop has to do, by the order of its queues. Due timers become ready only if nothing else
is ready, and a low-priority job gets its turn only if no timer is due either. -/

namespace Deferred

variable {σ : Type}

def Timer.isDue (now : Nat) (timer : Timer σ) : Bool :=
  timer.deadline ≤ now

namespace Loop

structure Vacant (loop : Loop σ) : Prop where
  ready : loop.ready.toList = []
  low : loop.low.toList = []
  timers : loop.timers = []

theorem Vacant.gather {loop : Loop σ} (vacant : loop.Vacant) (content : Group σ) : (loop.gather content).Vacant :=
  ⟨vacant.ready, vacant.low, vacant.timers⟩

/-- The jobs of the timers that the next turn finds due. It looks at the timers only if the high-priority
queue is empty. -/
def fallingDue (loop : Loop σ) : List (Job σ) :=
  if loop.ready.toList = [] then
    (loop.timers.takeWhile (Timer.isDue loop.clock)).map Timer.job
  else []

def fires (loop : Loop σ) : List (Timer σ) :=
  if loop.ready.toList = [] then loop.timers.takeWhile (Timer.isDue loop.clock) else []

theorem fallingDue_eq_map (loop : Loop σ) : loop.fallingDue = loop.fires.map Timer.job := by
  unfold fallingDue fires
  split <;> rfl

theorem fires_prefix (loop : Loop σ) : loop.fires <+: loop.timers := by
  unfold fires
  split
  next => exact List.takeWhile_prefix _
  next => exact List.nil_prefix

theorem deadline_le_of_mem_fires {loop : Loop σ} {timer : Timer σ} (fired : timer ∈ loop.fires) :
    timer.deadline ≤ loop.clock := by
  unfold fires at fired
  split at fired
  next => exact of_decide_eq_true (List.all_eq_true.mp List.all_takeWhile timer fired)
  next => exact absurd fired List.not_mem_nil

/-- Whoever has the jobs that fall due in front of the other timers' jobs has these timers in front of the others. -/
theorem timers_eq_of_due {loop : Loop σ} {timers : List (Timer σ)}
    (due : loop.timers.map Timer.job = loop.fallingDue ++ timers.map Timer.job)
    (suffix : timers <:+ loop.timers) : loop.timers = loop.fires ++ timers := by
  obtain ⟨first, whole⟩ := suffix
  have counted := congrArg List.length due
  rw [fallingDue_eq_map, ← whole, List.map_append, List.length_append, List.length_append] at counted
  simp only [List.length_map] at counted
  have front : first <+: loop.fires :=
    List.prefix_of_prefix_length_le ⟨timers, whole⟩ loop.fires_prefix (by omega)
  rw [← front.eq_of_length (by omega), whole]

theorem popReady?_eq {loop popped : Loop σ} {job : Job σ}
    (found : loop.popReady? = some (job, popped)) :
    ∃ ready, popped = { loop with ready } ∧ loop.ready.toList = job :: ready.toList := by
  simp only [popReady?, Option.map_eq_some_iff, Prod.mk.injEq, Prod.exists] at found
  obtain ⟨_, ready, pop, rfl, rfl⟩ := found
  exact ⟨ready, rfl, Queue.toList_of_pop? pop⟩

theorem popReady?_eq_none {loop : Loop σ} (found : loop.popReady? = none) :
    loop.ready.toList = [] := by
  simpa [popReady?, Queue.pop?_eq_none_iff] using found

theorem popLow?_eq {loop popped : Loop σ} {job : Job σ}
    (found : loop.popLow? = some (job, popped)) :
    ∃ low, popped = { loop with low } ∧ loop.low.toList = job :: low.toList := by
  simp only [popLow?, Option.map_eq_some_iff, Prod.mk.injEq, Prod.exists] at found
  obtain ⟨_, low, pop, rfl, rfl⟩ := found
  exact ⟨low, rfl, Queue.toList_of_pop? pop⟩

theorem popLow?_eq_none {loop : Loop σ} (found : loop.popLow? = none) : loop.low.toList = [] := by
  simpa [popLow?, Queue.pop?_eq_none_iff] using found

/-- What the next turn has to do, as far as the order of the queues shows it. -/
inductive Decides (loop : Loop σ) : Duty σ → Prop
  /-- The oldest ready job, where due timers have become ready if no other job was. -/
  | ready {job : Job σ} {ready : Queue (Job σ)} {timers : List (Timer σ)}
      {journal : List (Nat × Event)}
      (taken : loop.ready.toList ++ loop.fallingDue = job :: ready.toList)
      (due : loop.timers.map Timer.job = loop.fallingDue ++ timers.map Timer.job)
      (suffix : timers <:+ loop.timers) :
      Decides loop (.run job { loop with ready, timers, journal })
  /-- The oldest low-priority job, if nothing is ready or due. -/
  | low {job : Job σ} {low ready : Queue (Job σ)} {journal : List (Nat × Event)}
      (unready : loop.ready.toList = []) (still : ready.toList = [])
      (ahead : ∀ timer ∈ loop.timers.head?, loop.clock < timer.deadline)
      (taken : loop.low.toList = job :: low.toList) :
      Decides loop (.run job { loop with ready, low, journal })
  /-- The first deadline, if there is nothing to do before. -/
  | sleep {timer : Timer σ} {rest : List (Timer σ)} (unready : loop.ready.toList = [])
      (unlow : loop.low.toList = []) (timers : loop.timers = timer :: rest)
      (ahead : loop.clock < timer.deadline) : Decides loop (.sleep timer.deadline)
  | idle (vacant : loop.Vacant) : Decides loop .idle

theorem fireDue_spec (loop : Loop σ) (timers : List (Timer σ)) :
    ∃ ready journal, loop.fireDue timers =
        { loop with ready, timers := timers.dropWhile (Timer.isDue loop.clock), journal } ∧
      ready.toList =
        loop.ready.toList ++ (timers.takeWhile (Timer.isDue loop.clock)).map Timer.job := by
  induction timers generalizing loop with
  | nil => exact ⟨_, _, rfl, by simp⟩
  | cons timer rest ih =>
    simp only [fireDue]
    split
    next due =>
      have dueNow : timer.isDue loop.clock = true := decide_eq_true due
      obtain ⟨ready, journal, fired, members⟩ :=
        ih { loop.record (.fired timer.number) with ready := loop.ready.push timer.job }
      refine ⟨ready, journal, ?_, ?_⟩
      · rw [fired, List.dropWhile_cons_of_pos dueNow]
        rfl
      · rw [members, List.takeWhile_cons_of_pos dueNow, Queue.toList_push, List.append_assoc]
        rfl
    next early =>
      have notYet : ¬timer.isDue loop.clock = true := by simpa [Timer.isDue] using early
      refine ⟨loop.ready, loop.journal, ?_, ?_⟩
      · rw [List.dropWhile_cons_of_neg notYet]
      · rw [List.takeWhile_cons_of_neg notYet, List.map_nil, List.append_nil]

theorem decides_next (loop : Loop σ) : loop.Decides loop.next := by
  unfold next
  split
  next job popped found =>
    obtain ⟨ready, rfl, taken⟩ := popReady?_eq found
    have notDue : loop.fallingDue = [] := if_neg (by simp [taken])
    exact .ready (by rw [notDue, taken, List.append_nil]) (by rw [notDue]; rfl) (List.suffix_refl _)
  next unready =>
    have noneReady := popReady?_eq_none unready
    have falling : loop.fallingDue =
        (loop.timers.takeWhile (Timer.isDue loop.clock)).map Timer.job :=
      if_pos noneReady
    obtain ⟨ready, journal, fired, members⟩ := loop.fireDue_spec loop.timers
    rw [noneReady, List.nil_append] at members
    simp only [fired]
    split
    next job popped found =>
      obtain ⟨readyRest, rfl, taken⟩ := popReady?_eq found
      refine .ready (by rw [noneReady, falling, List.nil_append, ← members]; exact taken) ?_
        (List.dropWhile_suffix _)
      rw [falling, ← List.map_append, List.takeWhile_append_dropWhile]
    next unready =>
      have still : ready.toList = [] := popReady?_eq_none unready
      have nothingDue : loop.timers.takeWhile (Timer.isDue loop.clock) = [] :=
        List.map_eq_nil_iff.mp (members.symm.trans still)
      have kept : loop.timers.dropWhile (Timer.isDue loop.clock) = loop.timers := by
        have whole := @List.takeWhile_append_dropWhile _ (Timer.isDue loop.clock) loop.timers
        rwa [nothingDue, List.nil_append] at whole
      have ahead : ∀ timer ∈ loop.timers.head?, loop.clock < timer.deadline := by
        intro timer first
        obtain ⟨rest, timers⟩ := List.head?_eq_some_iff.mp first
        by_contra past
        have due : timer.isDue loop.clock = true := decide_eq_true (Nat.not_lt.mp past)
        rw [timers, List.takeWhile_cons_of_pos due] at nothingDue
        exact absurd nothingDue (List.cons_ne_nil _ _)
      rw [kept]
      split
      next job popped found =>
        obtain ⟨low, rfl, taken⟩ := popLow?_eq found
        exact .low noneReady still ahead taken
      next unlow =>
        have noneLow := popLow?_eq_none unlow
        split
        next timer rest timers => exact .sleep noneReady noneLow timers (ahead timer (by simp [timers]))
        next timers => exact .idle ⟨noneReady, noneLow, timers⟩

theorem next_eq_idle_iff (loop : Loop σ) : loop.next = .idle ↔ loop.Vacant := by
  have decides := loop.decides_next
  constructor
  · intro idle
    rw [idle] at decides
    cases decides with
    | idle vacant => exact vacant
  · intro vacant
    generalize loop.next = duty at decides
    cases decides with
    | ready taken _ _ =>
      simp [fallingDue, vacant.ready, vacant.timers] at taken
    | low _ _ _ taken => simp [vacant.low] at taken
    | sleep _ _ timers _ => simp [vacant.timers] at timers
    | idle => rfl

end Loop

end Deferred
