import Deferred.Proofs.Loop.Conservation
import Mathlib.Data.List.TakeWhile

/-! Timers are exact. A pending timer is never overdue, for the clock moves only up to the earliest deadline
and only when there is nothing else to do, so the job of a timer is started at its deadline. Of two timers
that are pending together the one with the earlier deadline comes first, and the one that was armed first if
the deadlines are equal. -/

namespace Deferred

variable {σ : Type}

def Timer.Before (first second : Timer σ) : Prop :=
  first.deadline < second.deadline ∨
    first.deadline = second.deadline ∧ first.number < second.number

theorem Timer.Before.le {first second : Timer σ} (before : first.Before second) :
    first.deadline ≤ second.deadline := by
  unfold Before at before
  omega

theorem Timer.Before.asymm {first second : Timer σ} (before : first.Before second) :
    ¬second.Before first := by
  unfold Before at before ⊢
  omega

def Job.DueAt (job : Job σ) (time : Nat) : Prop :=
  ∀ deadline number, job.route = .timed deadline number → deadline = time

theorem Job.dueAt_of_not_timed {job : Job σ} (untimed : job.route.isTimed = false) (time : Nat) :
    job.DueAt time := by
  intro deadline number route
  simp [route, Route.isTimed] at untimed

theorem Job.dueAt_of_low {job : Job σ} (low : job.route.isLow = true) (time : Nat) : job.DueAt time := by
  intro deadline number route
  simp [route, Route.isLow] at low

theorem pair_sublist_of_pairwise {α : Type} {before : α → α → Prop} {members : List α} {first second : α}
    (asymm : ∀ {one other}, before one other → ¬before other one)
    (ordered : members.Pairwise before) (firstIn : first ∈ members) (secondIn : second ∈ members)
    (precedes : before first second) : [first, second].Sublist members := by
  induction ordered with
  | nil => exact absurd firstIn List.not_mem_nil
  | @cons member rest ahead _ ih =>
    rcases List.mem_cons.mp firstIn with rfl | firstRest
    · rcases List.mem_cons.mp secondIn with rfl | secondRest
      · exact absurd precedes (asymm precedes)
      · exact (List.singleton_sublist.mpr secondRest).cons_cons first
    · rcases List.mem_cons.mp secondIn with rfl | secondRest
      · exact absurd precedes (asymm (ahead first firstRest))
      · exact (ih firstRest secondRest).cons member

theorem mem_of_pair_sublist {α : Type} {first second : α} {before after : List α}
    (pair : [first, second].Sublist (before ++ second :: after))
    (nodup : (before ++ second :: after).Nodup) : first ∈ before := by
  have unrepeated : second ∉ after := (List.nodup_cons.mp (List.nodup_append.mp nodup).2.1).1
  by_contra absent
  obtain ⟨front, back, split, inFront, inBack⟩ := List.sublist_append_iff.mp pair
  cases front with
  | cons head front =>
    obtain rfl := (List.cons.inj split).1
    exact absent (inFront.subset List.mem_cons_self)
  | nil =>
    rw [← split.trans (List.nil_append back)] at inBack
    cases inBack with
    | cons _ inBack => exact unrepeated (inBack.subset (by simp))
    | cons_cons _ inBack => exact unrepeated (inBack.subset List.mem_cons_self)

namespace Loop

structure Timely (loop : Loop σ) : Prop where
  ordered : loop.timers.Pairwise Timer.Before
  numbered : ∀ timer ∈ loop.timers, timer.number < loop.armed
  upcoming : ∀ timer ∈ loop.timers, loop.clock ≤ timer.deadline
  ready : ∀ job ∈ loop.ready.toList, job.DueAt loop.clock

/-- The jobs that wait for their turn ahead of all low-priority jobs, as far as they have been submitted. -/
def line (loop : Loop σ) : List (Job σ) :=
  loop.ready.toList ++ loop.timers.map Timer.job

theorem insertTimer_ordered {timer : Timer σ} {timers : List (Timer σ)}
    (ordered : timers.Pairwise Timer.Before) (newest : ∀ other ∈ timers, other.number < timer.number) :
    (insertTimer timer timers).Pairwise Timer.Before := by
  refine insertTimer_pairwise (fun _ _ before => before.le) (fun other pending earlier => ?_) (fun _ => .inl) ordered
  exact (Nat.lt_or_eq_of_le earlier).imp_right fun same => ⟨same, newest other pending⟩

theorem sublist_insertTimer (timer : Timer σ) (timers : List (Timer σ)) :
    timers.Sublist (insertTimer timer timers) := by
  induction timers with
  | nil => exact List.nil_sublist _
  | cons other rest ih =>
    unfold insertTimer
    split
    next => exact ih.cons_cons other
    next => exact List.sublist_cons_self timer (other :: rest)

theorem Places.timely {loop after : Loop σ} {job : Job σ} (places : loop.Places job after)
    (timely : loop.Timely) : after.Timely := by
  cases places with
  | ready _ timed _ =>
    refine { timely with ready := fun other waits => ?_ }
    rw [Queue.toList_push] at waits
    rcases List.mem_append.mp waits with waits | new
    · exact timely.ready other waits
    · exact List.mem_singleton.mp new ▸ Job.dueAt_of_not_timed timed loop.clock
  | low _ _ _ _ => exact ⟨timely.ordered, timely.numbered, timely.upcoming, timely.ready⟩
  | timed delay _ _ =>
    have inserted := insertTimer_perm ⟨loop.clock + delay, loop.armed, job⟩ loop.timers
    refine ⟨insertTimer_ordered timely.ordered timely.numbered, fun timer pending => ?_,
      fun timer pending => ?_, timely.ready⟩
    · rcases List.mem_cons.mp (inserted.mem_iff.mp pending) with rfl | pending
      · exact Nat.lt_succ_self loop.armed
      · exact Nat.lt_succ_of_lt (timely.numbered timer pending)
    · rcases List.mem_cons.mp (inserted.mem_iff.mp pending) with rfl | pending
      · exact Nat.le_add_right loop.clock delay
      · exact timely.upcoming timer pending

theorem Places.line {loop after : Loop σ} {job : Job σ} (places : loop.Places job after) :
    loop.line.Sublist after.line := by
  cases places with
  | ready =>
    simp only [Loop.line, Queue.toList_push]
    exact (List.sublist_append_left _ _).append (List.Sublist.refl _)
  | low => exact List.Sublist.refl _
  | timed => exact (List.Sublist.refl _).append ((sublist_insertTimer _ _).map Timer.job)

theorem Timely.fallingDue {loop : Loop σ} (timely : loop.Timely) (routed : loop.Routed) {job : Job σ}
    (due : job ∈ loop.fallingDue) : job.DueAt loop.clock := by
  unfold Loop.fallingDue at due
  split at due
  next =>
    obtain ⟨timer, taken, rfl⟩ := List.mem_map.mp due
    have pending : timer ∈ loop.timers := (List.takeWhile_prefix _).subset taken
    have reached : timer.isDue loop.clock = true := List.mem_takeWhile_imp taken
    have past : timer.deadline ≤ loop.clock := of_decide_eq_true reached
    intro deadline number route
    rw [routed.timers timer pending] at route
    injection route with same
    have := timely.upcoming timer pending
    omega
  next => exact absurd due List.not_mem_nil

theorem Decides.timely {loop popped : Loop σ} {job : Job σ} (decides : loop.Decides (.run job popped))
    (timely : loop.Timely) (routed : loop.Routed) : popped.Timely ∧ job.DueAt loop.clock := by
  cases decides with
  | ready taken _ suffix =>
    have due : ∀ other ∈ loop.ready.toList ++ loop.fallingDue, other.DueAt loop.clock := by
      intro other waits
      exact (List.mem_append.mp waits).elim (timely.ready other) (timely.fallingDue routed)
    rw [taken] at due
    refine ⟨⟨timely.ordered.sublist suffix.sublist, ?_, ?_, ?_⟩, due job List.mem_cons_self⟩
    · exact fun timer pending => timely.numbered timer (suffix.subset pending)
    · exact fun timer pending => timely.upcoming timer (suffix.subset pending)
    · exact fun other waits => due other (List.mem_cons_of_mem job waits)
  | low unready still ahead taken =>
    refine ⟨⟨timely.ordered, timely.numbered, timely.upcoming, ?_⟩, ?_⟩
    · exact fun other waits => absurd waits (by simp [still])
    · exact Job.dueAt_of_low (routed.low job (taken ▸ List.mem_cons_self)) loop.clock

theorem Decides.line {loop popped : Loop σ} {job : Job σ} (decides : loop.Decides (.run job popped)) :
    loop.line.Sublist (job :: popped.line) := by
  cases decides with
  | ready taken due _ =>
    simp only [Loop.line, due, ← List.append_assoc, taken]
    exact List.Sublist.refl _
  | low unready still _ _ =>
    simp only [Loop.line, unready, still]
    exact List.sublist_cons_self _ _

theorem Timely.le_of_head {loop : Loop σ} {timer : Timer σ} {rest : List (Timer σ)}
    (timely : loop.Timely) (timers : loop.timers = timer :: rest) :
    ∀ other ∈ loop.timers, timer.deadline ≤ other.deadline := by
  intro other pending
  have ordered := timely.ordered
  rw [timers] at ordered pending
  rcases List.mem_cons.mp pending with rfl | pending
  · exact le_refl _
  · exact (List.rel_of_pairwise_cons ordered pending).le

theorem Decides.nothing_due {loop popped : Loop σ} {job : Job σ}
    (decides : loop.Decides (.run job popped)) (timely : loop.Timely) (routed : loop.Routed)
    (isLow : job ∈ loop.low.toList) :
    loop.ready.toList = [] ∧ ∀ timer ∈ loop.timers, loop.clock < timer.deadline := by
  have low := routed.low job isLow
  cases decides with
  | ready taken _ _ =>
    have first : job ∈ loop.ready.toList ++ loop.fallingDue := taken ▸ List.mem_cons_self
    have high := (List.mem_append.mp first).elim (routed.ready job) routed.fallingDue
    rw [low] at high
    cases high
  | low unready _ ahead _ =>
    refine ⟨unready, fun timer pending => ?_⟩
    cases timers : loop.timers with
    | nil => simp [timers] at pending
    | cons head rest =>
      have := ahead head (by simp [timers])
      have := timely.le_of_head timers timer pending
      omega

/-- A loop sleeps only if no job waits for its turn, and it sleeps up to the earliest deadline. -/
theorem Decides.nothing_before {loop : Loop σ} {deadline : Nat} (decides : loop.Decides (.sleep deadline))
    (timely : loop.Timely) : loop.ready.toList = [] ∧ loop.low.toList = [] ∧ loop.clock < deadline ∧
      (∃ timer ∈ loop.timers, timer.deadline = deadline) ∧
      ∀ timer ∈ loop.timers, deadline ≤ timer.deadline := by
  cases decides with
  | @sleep timer rest unready unlow timers ahead =>
    exact ⟨unready, unlow, ahead, ⟨timer, by simp [timers], rfl⟩, timely.le_of_head timers⟩

end Loop

namespace Moment

open Loop (Timely Routed)

variable {bound : Nat}

theorem Moves.timely {moment next : Moment σ} {deed : Deed σ} (moves : moment.Moves bound deed next)
    (timely : moment.loop.Timely) (routed : moment.loop.Routed) :
    next.loop.Timely ∧ ∀ start ∈ deed.starts, start.2.DueAt start.1 := by
  cases moves with
  | submit => exact ⟨(Loop.submit_places ..).timely timely, fun _ starts => absurd starts List.not_mem_nil⟩
  | work stepped =>
    obtain ⟨_, _, _, _, rfl⟩ := Script.effect?_eq stepped
    refine ⟨⟨timely.ordered, timely.numbered, timely.upcoming, timely.ready⟩, ?_⟩
    exact fun _ starts => absurd starts List.not_mem_nil
  | @start loop popped job found =>
    have decides := loop.decides_next
    rw [found] at decides
    obtain ⟨after, due⟩ := decides.timely timely routed
    refine ⟨⟨after.ordered, after.numbered, after.upcoming, after.ready⟩, fun start starts => ?_⟩
    obtain rfl := List.mem_singleton.mp starts
    exact due
  | @sleep loop deadline found =>
    have decides := loop.decides_next
    rw [found] at decides
    cases decides with
    | sleep unready _ timers _ =>
      refine ⟨⟨timely.ordered, timely.numbered, timely.le_of_head timers, ?_⟩, ?_⟩
      · exact fun job waits => absurd waits (by simp [unready])
      · exact fun _ starts => absurd starts List.not_mem_nil

theorem Moves.line {moment next : Moment σ} {deed : Deed σ} (moves : moment.Moves bound deed next) :
    moment.loop.line.Sublist (deed.starts.map Prod.snd ++ next.loop.line) := by
  cases moves with
  | submit => exact (Loop.submit_places ..).line
  | work stepped =>
    obtain ⟨_, _, _, _, rfl⟩ := Script.effect?_eq stepped
    exact List.Sublist.refl _
  | @start loop popped job found =>
    have decides := loop.decides_next
    rw [found] at decides
    exact decides.line
  | sleep _ => exact List.Sublist.refl _

theorem Goes.line {first last : Moment σ} {history : History σ} (goes : first.Goes bound history last) :
    first.loop.line.Sublist (history.startedJobs ++ last.loop.line) := by
  induction goes with
  | here => exact List.Sublist.refl _
  | perform _ _ ih => exact ih
  | @move history moment deed next _ moves ih =>
    have started : History.startedJobs [deed] = deed.starts.map Prod.snd := by
      simp [History.startedJobs, History.started]
    rw [History.startedJobs_append, started, List.append_assoc]
    exact ih.trans ((List.Sublist.refl _).append moves.line)

theorem timely_fresh (config : Config) : ({ config } : Loop σ).Timely :=
  ⟨.nil, fun _ pending => absurd pending List.not_mem_nil,
    fun _ pending => absurd pending List.not_mem_nil, fun _ waits => absurd waits List.not_mem_nil⟩

theorem Goes.timely {config : Config} {moment : Moment σ} {history : History σ}
    (goes : (⟨{ config }, .done⟩ : Moment σ).Goes bound history moment) :
    moment.loop.Timely ∧ ∀ start ∈ history.started, start.2.DueAt start.1 := by
  induction goes with
  | here => exact ⟨timely_fresh config, fun _ starts => absurd starts List.not_mem_nil⟩
  | perform _ _ ih => exact ih
  | @move history moment deed next before moves ih =>
    obtain ⟨timely, due⟩ := moves.timely ih.1 before.passes.accounts.1
    have started : History.started [deed] = deed.starts := by simp [History.started]
    refine ⟨timely, fun start starts => ?_⟩
    rw [History.started_append, started] at starts
    exact (List.mem_append.mp starts).elim (ih.2 start) (due start)

theorem Goes.started_before {config : Config} {moment later : Moment σ} {history more : History σ}
    (goes : (⟨{ config }, .done⟩ : Moment σ).Goes bound history moment)
    (goes' : moment.Goes bound more later) {first second : Job σ}
    (inLine : [first, second].Sublist moment.loop.line) {before after : List (Job σ)}
    (started : more.startedJobs = before ++ second :: after) : first ∈ before := by
  have nodup := ((goes.trans goes').passes.accounts.2.nodup).of_map
  have behind : (more.startedJobs ++ later.loop.line).Sublist
      ((history ++ more).startedJobs ++ later.loop.waiting) := by
    rw [History.startedJobs_append, List.append_assoc]
    apply List.Sublist.trans _ (List.sublist_append_right _ _)
    apply List.Sublist.append_left
    unfold Loop.line Loop.waiting
    exact (List.sublist_append_left _ _).append_right _
  have pair := inLine.trans goes'.line
  rw [started, List.append_assoc, List.cons_append] at pair behind
  exact mem_of_pair_sublist pair (nodup.sublist behind)

/-- Timers are exact and ordered. At every moment of a run no timer is overdue, and all jobs of timers have been
started at their deadlines. Pending timers are ordered by deadline and number, and the first of two is
started first. A low-priority job is started only if no job is ready and no timer is due; the loop sleeps only
if no job waits in a queue, and it sleeps exactly up to the earliest deadline. -/
theorem Goes.keeps_time {config : Config} {history : History σ} {loop : Loop σ} {script : Script σ}
    (goes : (⟨{ config }, .done⟩ : Moment σ).Goes bound history ⟨loop, script⟩) :
    (∀ timer ∈ loop.timers, loop.clock ≤ timer.deadline) ∧
    (∀ timer ∈ loop.timers, timer.job.route = .timed timer.deadline timer.number) ∧
    (∀ time job deadline number, (time, job) ∈ history.started → job.route = .timed deadline number →
      time = deadline) ∧
    loop.timers.Pairwise Timer.Before ∧
    (∀ first ∈ loop.timers, ∀ second ∈ loop.timers, first.Before second →
      ∀ more later, (⟨loop, script⟩ : Moment σ).Goes bound more later →
        ∀ before after, more.startedJobs = before ++ second.job :: after → first.job ∈ before) ∧
    (∀ time fired job next, (⟨loop, script⟩ : Moment σ).Moves bound (.started time fired job) next →
      job ∈ loop.low.toList →
        loop.ready.toList = [] ∧ ∀ timer ∈ loop.timers, loop.clock < timer.deadline) ∧
    (∀ deadline next, (⟨loop, script⟩ : Moment σ).Moves bound (.slept deadline) next →
      loop.ready.toList = [] ∧ loop.low.toList = [] ∧ loop.clock < deadline ∧
        (∃ timer ∈ loop.timers, timer.deadline = deadline) ∧
        (∀ timer ∈ loop.timers, deadline ≤ timer.deadline) ∧
        next = ⟨{ loop with clock := deadline }, .done⟩) ∧
    (script = .done → ∃ outcome after more, loop.turn bound = some (outcome, after) ∧
      (⟨loop, .done⟩ : Moment σ).Goes bound more ⟨after, .done⟩ ∧
      more.started.length = (if outcome = .ran then 1 else 0) ∧
      more.slept.length = (if outcome = .slept then 1 else 0)) := by
  have timely := goes.timely.1
  have routed := goes.passes.accounts.1
  refine ⟨timely.upcoming, routed.timers, ?_, timely.ordered, ?_, ?_, ?_, ?_⟩
  · intro time job deadline number started route
    exact (goes.timely.2 (time, job) started deadline number route).symm
  · intro first firstIn second secondIn precedes more later goes' before after started
    have ordered := pair_sublist_of_pairwise Timer.Before.asymm timely.ordered firstIn secondIn precedes
    apply goes.started_before goes' _ started
    exact (ordered.map Timer.job).trans (List.sublist_append_right _ _)
  · intro time fired job next moves isLow
    cases moves with
    | start found =>
      have decides := loop.decides_next
      rw [found] at decides
      exact decides.nothing_due timely routed isLow
  · intro deadline next moves
    cases moves with
    | sleep found =>
      have decides := loop.decides_next
      rw [found] at decides
      obtain ⟨unready, unlow, ahead, earliest, first⟩ := decides.nothing_before timely
      exact ⟨unready, unlow, ahead, earliest, first, rfl⟩
  · rintro rfl
    obtain ⟨outcome, after, more, turned, goes', starts, turns, -⟩ :=
      (goes.plain (plain_fresh config)).turn bound
    refine ⟨outcome, after, more, turned, goes', starts, ?_⟩
    unfold History.turns at turns
    cases outcome <;> simp only [reduceCtorEq, if_true, if_false] at starts turns ⊢ <;> omega

def threeTimers : Script Unit :=
  .submit (.after 7) (fun _ => .done)
    (.submit (.after 3) (fun _ => .done) (.submit (.after 3) (fun _ => .done) .done))

theorem threeTimers_plain : threeTimers.Plain :=
  .submit .done (.submit .done (.submit .done .done))

theorem keeps_time_together : ∃ history loop,
    (⟨{}, .done⟩ : Moment Unit).Goes 9 history ⟨loop, .done⟩ ∧
      history.started.map (fun start => (start.1, start.2.route)) = [(3, .timed 3 1), (3, .timed 3 2)] ∧
      loop.timers.map (fun timer => (timer.deadline, timer.number)) = [(7, 0)] ∧
      (∀ time job deadline number, (time, job) ∈ history.started → job.route = .timed deadline number →
        time = deadline) ∧
      (∀ timer ∈ loop.timers, loop.clock ≤ timer.deadline) ∧
      ∃ outcome after, loop.turn 9 = some (outcome, after) ∧ after.clock = 7 := by
  have armed : (⟨{}, .done⟩ : Moment Unit).Goes 9 _ ⟨_, .done⟩ :=
    (((Goes.here.perform threeTimers_plain).move .submit).move .submit).move .submit
  have first := (armed.move (.sleep rfl)).move (.start rfl)
  have second := first.move (.start rfl)
  have goes : (⟨{}, .done⟩ : Moment Unit).Goes 9 _ ⟨_, .done⟩ := second
  obtain ⟨upcoming, -, exactly, -, -, -, -, -⟩ := goes.keeps_time
  exact ⟨_, _, goes, rfl, rfl, exactly, upcoming, _, _, rfl, rfl⟩

end Moment

end Deferred
