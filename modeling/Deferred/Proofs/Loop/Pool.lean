import Deferred.Proofs.Loop.Duties
import Mathlib.Algebra.Order.Group.Multiset
import Mathlib.Tactic.Abel

/-! The work that a loop still has to do, without the order of its queues. A task is a script and the
time at which it is to run: now for the two queues, the deadline for a timer. A turn runs one of the
tasks that are due now, and the clock moves only when there is none, so neither the limit of the
periodic yield nor its count can be seen in the pool. -/

namespace Deferred

variable {σ : Type}

structure Task (σ : Type) where
  due : Nat
  script : Unit → Script σ

def Lane.due (now : Nat) : Lane → Nat
  | .after delay => now + delay
  | _ => now

theorem Lane.le_due (now : Nat) (lane : Lane) : now ≤ lane.due now := by
  cases lane with
  | after delay => exact Nat.le_add_right now delay
  | scheduled | deferred | yielded => exact le_refl now

def Timer.task (timer : Timer σ) : Task σ :=
  ⟨timer.deadline, timer.job.script⟩

theorem Script.run_andThen (host : Host σ) (first last : Script σ) (loop : Loop σ) :
    (first.andThen last).run host loop = (first.run host loop).bind (last.run host) := by
  induction first generalizing loop with
  | done | stuck => rfl
  | submit _ _ _ _ ih | record _ _ ih | put _ _ _ ih | configure _ _ ih | wake _ _ _ _ ih =>
    simp only [andThen, run, ih]
  | now _ ih | review _ ih | gather _ _ ih | look _ _ ih | inspect _ ih | hold _ ih | budget _ ih =>
    simp only [andThen, run, ih]
  | turn _ ih =>
    simp only [andThen, run]
    cases host.turn loop with
    | none => rfl
    | some result => exact ih _ _
  | drain _ ih =>
    simp only [andThen, run]
    cases Loop.driveWith host.turn (fun _ => false) host.bound 0 loop with
    | none => rfl
    | some result => exact ih _ _
  | await waker _ ih =>
    simp only [andThen, run]
    cases Loop.driveWith host.turn (fun loop => (loop.rest? waker).isSome) host.bound 0 loop with
    | none => rfl
    | some result =>
      simp only
      cases result.2.rest? waker with
      | none => exact ih _ _
      | some rest =>
        simp only
        cases host.finish (rest ()) (result.2.clearWaker waker) with
        | none => rfl
        | some finished => exact ih _ _

namespace Loop

def tasksAt (now : Nat) (jobs : List (Job σ)) : Multiset (Task σ) :=
  (jobs : Multiset (Job σ)).map fun job => ⟨now, job.script⟩

def pool (loop : Loop σ) : Multiset (Task σ) :=
  tasksAt loop.clock loop.ready.toList + tasksAt loop.clock loop.low.toList +
    (loop.timers : Multiset (Timer σ)).map Timer.task

structure Punctual (loop : Loop σ) : Prop where
  sorted : loop.timers.Pairwise fun first second => first.deadline ≤ second.deadline
  upcoming : ∀ timer ∈ loop.timers, loop.clock ≤ timer.deadline

@[simp] theorem tasksAt_append (now : Nat) (first second : List (Job σ)) :
    tasksAt now (first ++ second) = tasksAt now first + tasksAt now second := by
  simp only [tasksAt, ← Multiset.coe_add, Multiset.map_add]

@[simp] theorem tasksAt_cons (now : Nat) (job : Job σ) (jobs : List (Job σ)) :
    tasksAt now (job :: jobs) = ⟨now, job.script⟩ ::ₘ tasksAt now jobs := rfl

@[simp] theorem tasksAt_nil (now : Nat) : tasksAt now ([] : List (Job σ)) = 0 := rfl

theorem Vacant.pool_eq {loop : Loop σ} (vacant : loop.Vacant) : loop.pool = 0 := by
  simp [pool, vacant.ready, vacant.low, vacant.timers]

theorem Vacant.punctual {loop : Loop σ} (vacant : loop.Vacant) : loop.Punctual := by
  constructor <;> simp [vacant.timers]

theorem vacant_of_pool_eq {loop : Loop σ} (empty : loop.pool = 0) : loop.Vacant := by
  have counted : loop.pool.card = 0 := Multiset.card_eq_zero.mpr empty
  simp only [pool, tasksAt, Multiset.card_add, Multiset.card_map, Multiset.coe_card,
    Nat.add_eq_zero_iff, List.length_eq_zero_iff] at counted
  exact ⟨counted.1.1, counted.1.2, counted.2⟩

theorem insertTimer_perm (timer : Timer σ) (timers : List (Timer σ)) :
    (insertTimer timer timers).Perm (timer :: timers) := by
  induction timers with
  | nil => exact List.Perm.refl _
  | cons other rest ih =>
    simp only [insertTimer]
    split
    next => exact (ih.cons other).trans (List.Perm.swap timer other rest)
    next => exact List.Perm.refl _

/-- A timer keeps an order by deadlines, if this has the timer behind those that are due no later and in front of
those that are due later. -/
theorem insertTimer_pairwise {before : Timer σ → Timer σ → Prop} {timer : Timer σ} {timers : List (Timer σ)}
    (le : ∀ first second, before first second → first.deadline ≤ second.deadline)
    (behind : ∀ other ∈ timers, other.deadline ≤ timer.deadline → before other timer)
    (ahead : ∀ other, timer.deadline < other.deadline → before timer other) (sorted : timers.Pairwise before) :
    (insertTimer timer timers).Pairwise before := by
  induction timers with
  | nil => exact List.pairwise_singleton _ _
  | cons other rest ih =>
    obtain ⟨first, sorted'⟩ := List.pairwise_cons.mp sorted
    obtain ⟨behind_other, behind_rest⟩ := List.forall_mem_cons.mp behind
    unfold insertTimer
    split
    next earlier =>
      refine List.pairwise_cons.mpr ⟨fun later member => ?_, ih behind_rest sorted'⟩
      rcases List.mem_cons.mp ((insertTimer_perm timer rest).mem_iff.mp member) with rfl | member
      · exact behind_other earlier
      · exact first later member
    next notEarlier =>
      have before_other : timer.deadline < other.deadline := Nat.lt_of_not_le notEarlier
      refine List.pairwise_cons.mpr ⟨List.forall_mem_cons.mpr ⟨ahead other before_other, ?_⟩, sorted⟩
      exact fun later member => ahead later (before_other.trans_le (le other later (first later member)))

theorem insertTimer_sorted (timer : Timer σ) {timers : List (Timer σ)}
    (sorted : timers.Pairwise fun first second => first.deadline ≤ second.deadline) :
    (insertTimer timer timers).Pairwise fun first second => first.deadline ≤ second.deadline :=
  insertTimer_pairwise (fun _ _ le => le) (fun _ _ le => le) (fun _ lt => lt.le) sorted

@[simp] theorem tasksAt_push (now : Nat) (queue : Queue (Job σ)) (job : Job σ) :
    tasksAt now (queue.push job).toList = ⟨now, job.script⟩ ::ₘ tasksAt now queue.toList := by
  rw [Queue.toList_push, tasksAt_append, add_comm]
  rfl

theorem pool_submit (loop : Loop σ) (lane : Lane) (script : Unit → Script σ) :
    (loop.submit lane script).pool = ⟨lane.due loop.clock, script⟩ ::ₘ loop.pool := by
  cases lane with
  | scheduled =>
    simp only [submit, schedule]
    split
    next => simp only [pool, record, issue, tasksAt_push, Multiset.cons_add, Multiset.add_cons, Lane.due]
    next => simp only [pool, issue, tasksAt_push, Multiset.cons_add, Lane.due]
  | deferred => simp only [submit, defer, pool, issue, tasksAt_push, Multiset.cons_add, Lane.due]
  | yielded =>
    simp only [submit, submitLow, pool, issue, tasksAt_push, Multiset.cons_add, Multiset.add_cons,
      Lane.due]
  | after delay =>
    have same := Multiset.coe_eq_coe.mpr (insertTimer_perm (σ := σ)
      ⟨loop.clock + delay, loop.armed, loop.issue (.timed (loop.clock + delay) loop.armed) script⟩
      loop.timers)
    simp only [submit, setTimer, pool, record, same, ← Multiset.cons_coe, Multiset.map_cons,
      Multiset.add_cons]
    rfl

theorem submit_eq (loop : Loop σ) (lane : Lane) (script : Unit → Script σ) :
    ∃ ready low timers streak armed issued journal, loop.submit lane script =
      { loop with ready, low, timers, streak, armed, issued, journal } := by
  cases lane with
  | scheduled =>
    simp only [submit, schedule]
    split
    next => exact ⟨_, _, _, _, _, _, _, rfl⟩
    next => exact ⟨_, _, _, _, _, _, _, rfl⟩
  | deferred | yielded | after => exact ⟨_, _, _, _, _, _, _, rfl⟩

theorem submit_clock (loop : Loop σ) (lane : Lane) (script : Unit → Script σ) :
    (loop.submit lane script).clock = loop.clock := by
  obtain ⟨_, _, _, _, _, _, _, same⟩ := loop.submit_eq lane script
  rw [same]

theorem Punctual.submit {loop : Loop σ} (punctual : loop.Punctual) (lane : Lane)
    (script : Unit → Script σ) : (loop.submit lane script).Punctual := by
  cases lane with
  | scheduled =>
    simp only [Loop.submit, schedule]
    split
    next => exact ⟨punctual.sorted, punctual.upcoming⟩
    next => exact ⟨punctual.sorted, punctual.upcoming⟩
  | deferred | yielded => exact ⟨punctual.sorted, punctual.upcoming⟩
  | after delay =>
    refine ⟨insertTimer_sorted _ punctual.sorted, fun timer member => ?_⟩
    rcases List.mem_cons.mp ((insertTimer_perm _ _).mem_iff.mp member) with same | member
    · rw [same]
      exact Nat.le_add_right loop.clock delay
    · exact punctual.upcoming timer member

/-- What a turn of a loop finds to do, as far as the pool shows it. -/
inductive Finds (loop : Loop σ) : Duty σ → Prop where
  /-- A task that is due now. -/
  | run {job : Job σ} {ready low : Queue (Job σ)} {timers : List (Timer σ)}
      {journal : List (Nat × Event)}
      (pool : loop.pool = ⟨loop.clock, job.script⟩ ::ₘ { loop with ready, low, timers }.pool)
      (punctual : { loop with ready, low, timers }.Punctual) :
      Finds loop (.run job { loop with ready, low, timers, journal })
  /-- Nothing is due now, and the earliest deadline is some time ahead. -/
  | sleep {deadline : Nat} (ahead : loop.clock < deadline) (earliest : ∃ task ∈ loop.pool,
      task.due = deadline) (first : ∀ task ∈ loop.pool, deadline ≤ task.due)
      (pool : { loop with clock := deadline }.pool = loop.pool)
      (punctual : { loop with clock := deadline }.Punctual) : Finds loop (.sleep deadline)
  /-- Nothing at all. -/
  | idle (empty : loop.pool = 0) : Finds loop .idle

theorem Punctual.suffix {loop : Loop σ} (punctual : loop.Punctual) {rest : List (Timer σ)}
    (suffix : rest <:+ loop.timers) (ready low : Queue (Job σ)) :
    { loop with ready, low, timers := rest }.Punctual :=
  ⟨punctual.sorted.sublist suffix.sublist,
    fun timer member => punctual.upcoming timer (suffix.subset member)⟩

theorem Punctual.tasks_fires {loop : Loop σ} (punctual : loop.Punctual) :
    (loop.fires : Multiset (Timer σ)).map Timer.task = tasksAt loop.clock loop.fallingDue := by
  rw [fallingDue_eq_map, tasksAt, ← Multiset.map_coe, Multiset.map_map]
  refine Multiset.map_congr rfl fun timer fired => ?_
  have now : timer.deadline = loop.clock :=
    le_antisymm (deadline_le_of_mem_fires fired) (punctual.upcoming timer (loop.fires_prefix.subset fired))
  rw [Timer.task, now]
  rfl

theorem finds_next {loop : Loop σ} (punctual : loop.Punctual) : loop.Finds loop.next := by
  have decides := loop.decides_next
  generalize loop.next = duty at decides
  cases decides with
  | @ready job ready timers journal taken due suffix =>
    refine .run ?_ (punctual.suffix suffix ..)
    have first : tasksAt loop.clock loop.ready.toList + tasksAt loop.clock loop.fallingDue =
        ⟨loop.clock, job.script⟩ ::ₘ tasksAt loop.clock ready.toList := by
      rw [← tasksAt_append, taken, tasksAt_cons]
    have split : (loop.timers : Multiset (Timer σ)) = ↑loop.fires + ↑timers := by
      rw [timers_eq_of_due due suffix, Multiset.coe_add]
    simp only [pool, split, Multiset.map_add, punctual.tasks_fires, ← Multiset.cons_add, ← first]
    abel
  | low unready still _ taken =>
    refine .run ?_ (punctual.suffix (List.suffix_refl _) ..)
    simp only [pool, unready, still, taken, tasksAt_nil, tasksAt_cons, zero_add, Multiset.cons_add]
  | @sleep timer rest unready unlow timers ahead =>
    have first : ∀ other ∈ loop.timers, timer.deadline ≤ other.deadline := by
      have sorted := punctual.sorted
      rw [timers, List.pairwise_cons] at sorted
      rw [timers]
      exact List.forall_mem_cons.mpr ⟨le_refl _, sorted.1⟩
    have whole : loop.pool = (loop.timers : Multiset (Timer σ)).map Timer.task := by
      simp only [pool, unready, unlow, tasksAt_nil, zero_add]
    refine .sleep ahead ⟨timer.task, ?_, rfl⟩ ?_ ?_ ⟨punctual.sorted, first⟩
    · rw [whole, timers]
      exact Multiset.mem_map_of_mem _ (List.mem_cons_self ..)
    · intro task member
      rw [whole] at member
      obtain ⟨other, waiting, rfl⟩ := Multiset.mem_map.mp member
      exact first other waiting
    · simp only [pool, unready, unlow, tasksAt_nil]
  | idle vacant => exact .idle vacant.pool_eq

end Loop

end Deferred
