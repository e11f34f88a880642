import Deferred.Proofs.Loop.Moments

/-! No work is lost and none is done twice. At every moment each job that was ever submitted waits in one
of the three queues or has been started, and both queues of jobs are first in, first out: who entered one of
them first is started first. Submissions are told apart by their tickets, which are handed out once. -/

namespace Deferred

variable {σ : Type}

namespace Loop

structure Routed (loop : Loop σ) : Prop where
  ready : ∀ job ∈ loop.ready.toList, job.route.isLow = false
  low : ∀ job ∈ loop.low.toList, job.route.isLow = true
  timers : ∀ timer ∈ loop.timers, timer.job.route = .timed timer.deadline timer.number

/-- What has become of all jobs that were submitted to a loop. -/
structure Accounts (loop : Loop σ) (history : History σ) : Prop where
  /-- Each job has been started or waits in one of the queues. -/
  conserved : (history.startedJobs ++ loop.waiting).Perm history.submitted
  /-- No two jobs are the same. -/
  tickets : history.submitted.map Job.ticket = List.range loop.issued
  /-- Of the jobs that entered the high-priority queue, the first ones have been started in that order,
  and the others wait in it. -/
  ready : history.readied =
    history.startedJobs.filter (fun job => !job.route.isLow) ++ loop.ready.toList
  /-- The same is true of the low-priority queue, which jobs enter when they are submitted. -/
  low : history.submitted.filter (fun job => job.route.isLow) =
    history.startedJobs.filter (fun job => job.route.isLow) ++ loop.low.toList

theorem Accounts.nodup {loop : Loop σ} {history : History σ} (accounts : loop.Accounts history) :
    ((history.startedJobs ++ loop.waiting).map Job.ticket).Nodup := by
  have all := accounts.conserved.map Job.ticket
  rw [accounts.tickets] at all
  exact all.nodup_iff.mpr List.nodup_range

theorem Accounts.perm_of_vacant {loop : Loop σ} {history : History σ}
    (accounts : loop.Accounts history) (vacant : loop.Vacant) :
    history.startedJobs.Perm history.submitted := by
  simpa only [waiting, vacant.ready, vacant.low, vacant.timers, List.map_nil, List.append_nil]
    using accounts.conserved

theorem Places.routed {loop after : Loop σ} {job : Job σ} (places : loop.Places job after)
    (routed : loop.Routed) : after.Routed := by
  cases places with
  | ready low _ _ =>
    refine { routed with ready := fun other waits => ?_ }
    rw [Queue.toList_push] at waits
    rcases List.mem_append.mp waits with waits | new
    · exact routed.ready other waits
    · exact List.mem_singleton.mp new ▸ low
  | low low _ _ _ =>
    refine { routed with low := fun other waits => ?_ }
    rw [Queue.toList_push] at waits
    rcases List.mem_append.mp waits with waits | new
    · exact routed.low other waits
    · exact List.mem_singleton.mp new ▸ low
  | timed delay route _ =>
    refine { routed with timers := fun timer pending => ?_ }
    rcases List.mem_cons.mp ((insertTimer_perm _ _).mem_iff.mp pending) with rfl | pending
    · exact route
    · exact routed.timers timer pending

theorem Routed.fallingDue {loop : Loop σ} (routed : loop.Routed) {job : Job σ}
    (due : job ∈ loop.fallingDue) : job.route.isLow = false := by
  unfold Loop.fallingDue at due
  split at due
  next =>
    obtain ⟨timer, pending, rfl⟩ := List.mem_map.mp due
    rw [routed.timers timer ((List.takeWhile_prefix _).subset pending)]
    rfl
  next => exact absurd due List.not_mem_nil

theorem fallingDue_of_ahead {loop : Loop σ}
    (ahead : ∀ timer ∈ loop.timers.head?, loop.clock < timer.deadline) : loop.fallingDue = [] := by
  unfold fallingDue
  split
  next =>
    cases timers : loop.timers with
    | nil => rfl
    | cons timer rest =>
      have early : ¬timer.isDue loop.clock = true := by
        simpa [Timer.isDue] using ahead timer (by simp [timers])
      rw [List.takeWhile_cons_of_neg early, List.map_nil]
  next => rfl

theorem Decides.routed {loop popped : Loop σ} {job : Job σ}
    (decides : loop.Decides (.run job popped)) (routed : loop.Routed) : popped.Routed := by
  cases decides with
  | ready taken _ suffix =>
    refine ⟨fun other waits => ?_, routed.low, fun timer pending => ?_⟩
    · have member := taken ▸ List.mem_cons_of_mem job waits
      exact (List.mem_append.mp member).elim (routed.ready other) routed.fallingDue
    · exact routed.timers timer (suffix.subset pending)
  | low _ still _ taken =>
    refine ⟨fun other waits => absurd waits (by simp [still]), fun other waits => ?_, routed.timers⟩
    exact routed.low other (taken ▸ List.mem_cons_of_mem job waits)

theorem Decides.first {loop popped : Loop σ} {job : Job σ}
    (decides : loop.Decides (.run job popped)) (routed : loop.Routed) :
    loop.ready.toList ++ loop.fallingDue =
        [job].filter (fun job => !job.route.isLow) ++ popped.ready.toList ∧
      loop.low.toList = [job].filter (fun job => job.route.isLow) ++ popped.low.toList := by
  cases decides with
  | ready taken _ _ =>
    have high : job.route.isLow = false := by
      have member := taken ▸ List.mem_cons_self
      exact (List.mem_append.mp member).elim (routed.ready job) routed.fallingDue
    constructor
    · simpa [high] using taken
    · simp [high]
  | low unready still ahead taken =>
    have low : job.route.isLow = true := routed.low job (taken ▸ List.mem_cons_self)
    constructor
    · simp [low, unready, still, fallingDue_of_ahead ahead]
    · simpa [low] using taken

variable {loop after : Loop σ} {deed : Deed σ}

theorem Step.routed (step : loop.Step deed after) (routed : loop.Routed) : after.Routed := by
  cases step with
  | submit => exact (submit_places ..).routed routed
  | work | sleep => exact ⟨routed.ready, routed.low, routed.timers⟩
  | @start job popped found =>
    have decides := loop.decides_next
    rw [found] at decides
    obtain ⟨ready, low, timers⟩ := decides.routed routed
    exact ⟨ready, low, timers⟩

/-- Who enters the high-priority queue gets behind all others there, and is started from its front. -/
theorem Step.ready (step : loop.Step deed after) (routed : loop.Routed) :
    loop.ready.toList ++ deed.readies =
      (deed.starts.map Prod.snd).filter (fun job => !job.route.isLow) ++ after.ready.toList := by
  cases step with
  | submit lane script =>
    have places := loop.submit_places lane script
    generalize loop.jobOf lane script = job at places
    generalize loop.submit lane script = after at places
    cases places with
    | ready low timed _ => simp [Deed.readies, Deed.starts, low, timed]
    | low low _ _ _ => simp [Deed.readies, Deed.starts, low]
    | timed _ route _ => simp [Deed.readies, Deed.starts, route, Route.isTimed]
  | work | sleep => exact List.append_nil _
  | @start job popped found =>
    have decides := loop.decides_next
    rw [found] at decides
    exact (decides.first routed).1

/-- Who enters the low-priority queue gets behind all others there, and is started from its front. -/
theorem Step.low (step : loop.Step deed after) (routed : loop.Routed) :
    loop.low.toList ++ deed.submits.filter (fun job => job.route.isLow) =
      (deed.starts.map Prod.snd).filter (fun job => job.route.isLow) ++ after.low.toList := by
  cases step with
  | submit lane script =>
    have places := loop.submit_places lane script
    generalize loop.jobOf lane script = job at places
    generalize loop.submit lane script = after at places
    cases places with
    | ready low _ _ => simp [Deed.submits, Deed.starts, low]
    | low low _ _ _ => simp [Deed.submits, Deed.starts, low]
    | timed _ route _ => simp [Deed.submits, Deed.starts, route, Route.isLow]
  | work | sleep => exact List.append_nil _
  | @start job popped found =>
    have decides := loop.decides_next
    rw [found] at decides
    exact (List.append_nil _).trans (decides.first routed).2

theorem Step.tickets (step : loop.Step deed after) :
    List.range loop.issued ++ deed.submits.map Job.ticket = List.range after.issued := by
  cases step with
  | submit lane script =>
    have issued : (loop.submit lane script).issued = loop.issued + 1 := by
      have places := loop.submit_places lane script
      generalize loop.submit lane script = after at places
      cases places <;> rfl
    rw [issued, List.range_succ]
    rfl
  | work | sleep => exact List.append_nil _
  | @start job popped found =>
    have issued : popped.issued = loop.issued := by
      have decides := loop.decides_next
      rw [found] at decides
      cases decides <;> rfl
    rw [Loop.start, record, issued]
    exact List.append_nil _

theorem Step.accounts {history : History σ} (step : loop.Step deed after) (routed : loop.Routed)
    (accounts : loop.Accounts history) : after.Accounts (history ++ [deed]) := by
  have started : History.startedJobs [deed] = deed.starts.map Prod.snd := by
    simp [History.startedJobs, History.started]
  have submitted : History.submitted [deed] = deed.submits := by simp [History.submitted]
  have readied : History.readied [deed] = deed.readies := by simp [History.readied]
  constructor
  case conserved =>
    rw [History.startedJobs_append, History.submitted_append, started, submitted, List.append_assoc]
    apply (step.waiting.append_left history.startedJobs).trans
    rw [← List.append_assoc]
    exact accounts.conserved.append_right deed.submits
  case tickets =>
    rw [History.submitted_append, List.map_append, accounts.tickets, submitted, step.tickets]
  case ready =>
    rw [History.readied_append, History.startedJobs_append, readied, started, List.filter_append,
      List.append_assoc, ← step.ready routed, ← List.append_assoc, ← accounts.ready]
  case low =>
    rw [History.submitted_append, History.startedJobs_append, submitted, started, List.filter_append,
      List.filter_append, List.append_assoc, ← step.low routed, ← List.append_assoc, ← accounts.low]

theorem routed_fresh (config : Config) : ({ config } : Loop σ).Routed := by
  constructor <;> exact fun _ waits => absurd waits List.not_mem_nil

theorem accounts_fresh (config : Config) : ({ config } : Loop σ).Accounts [] :=
  ⟨.nil, rfl, rfl, rfl⟩

theorem Passes.accounts {keeps : Loop σ → Loop σ → Prop} {config : Config} {history : History σ} {loop : Loop σ}
    (passes : ({ config } : Loop σ).Passes keeps history loop) : loop.Routed ∧ loop.Accounts history := by
  induction passes with
  | here => exact ⟨routed_fresh config, accounts_fresh config⟩
  | step _ step _ ih => exact ⟨step.routed ih.1, step.accounts ih.1 ih.2⟩

end Loop

namespace Moment

variable {bound : Nat}

/-- The loop neither loses nor duplicates work. At every moment of a run each submitted job has been started
or waits in one queue, no job is at two places, and both queues of jobs are first in, first out. Between
turns anything may be done from outside; a turn is idle just when all queues are empty, and a run of turns
that is idle at last has counted the jobs it has started, and every job has been started. The same is true of
the jobs if time passes while they work, and wherever turns are made. -/
theorem Goes.conserves_work {config : Config} {history : History σ} {loop : Loop σ} {script : Script σ}
    (goes : (⟨{ config }, .done⟩ : Moment σ).Goes bound history ⟨loop, script⟩) :
    loop.Accounts history ∧ ((history.startedJobs ++ loop.waiting).map Job.ticket).Nodup ∧
      (∀ (past : History σ) (later : Loop σ), ({ config } : Loop σ).Passes (fun _ _ => True) past later →
        later.Accounts past ∧ ((past.startedJobs ++ later.waiting).map Job.ticket).Nodup) ∧
      (script = .done →
        (∀ performed : Script σ, performed.Plain → ∃ after more,
          loop.perform bound performed = some after ∧ more.turns = 0 ∧
          (⟨{ config }, .done⟩ : Moment σ).Goes bound (history ++ more) ⟨after, .done⟩) ∧
        (∃ outcome after more, loop.turn bound = some (outcome, after) ∧
          (outcome = .idle ↔ loop.ready.toList = [] ∧ loop.low.toList = [] ∧ loop.timers = []) ∧
          more.started.length = (if outcome = .ran then 1 else 0) ∧
          (⟨{ config }, .done⟩ : Moment σ).Goes bound (history ++ more) ⟨after, .done⟩) ∧
        ∃ after more, (⟨{ config }, .done⟩ : Moment σ).Goes bound (history ++ more) ⟨after, .done⟩ ∧
          (loop.drain bound = some (more.started.length, after) ∧ after.waiting = [] ∧
              (history ++ more).startedJobs.Perm (history ++ more).submitted ∨
            loop.drain bound = none ∧ more.turns = bound)) := by
  have accounts := goes.passes.accounts.2
  refine ⟨accounts, accounts.nodup, fun past later passes => ⟨passes.accounts.2, passes.accounts.2.nodup⟩, ?_⟩
  rintro rfl
  have plain := goes.plain (plain_fresh config)
  refine ⟨fun performed performs => ?_, ?_, ?_⟩
  · obtain ⟨after, more, ran, goes', unturned⟩ := performs.goes (Loop.hostAt bound bound) loop
    rw [Loop.hostAt_bound] at goes'
    exact ⟨after, more, ran, unturned, (goes.perform performs).trans goes'⟩
  · obtain ⟨outcome, after, more, turned, goes', starts, -, idle⟩ := plain.turn bound
    refine ⟨outcome, after, more, turned, idle.trans ?_, starts, goes.trans goes'⟩
    exact ⟨fun vacant => ⟨vacant.ready, vacant.low, vacant.timers⟩,
      fun ⟨ready, low, timers⟩ => ⟨ready, low, timers⟩⟩
  · obtain ⟨after, more, goes', driven⟩ := plain.drive bound 0
    have extended := goes.trans goes'
    refine ⟨after, more, extended, driven.imp_left ?_⟩
    rintro ⟨ran, vacant⟩
    refine ⟨by rw [Loop.drain, Loop.drive, ran, Nat.zero_add], ?_, extended.passes.accounts.2.perm_of_vacant vacant⟩
    rw [Loop.waiting, vacant.ready, vacant.low, vacant.timers]
    rfl

def allQueues : Script Unit :=
  .submit .scheduled (fun _ => .submit .deferred (fun _ => .done) .done)
    (.submit (.after 5) (fun _ => .done)
      (.submit .scheduled (fun _ => .done) (.submit .yielded (fun _ => .done) .done)))

theorem allQueues_plain : allQueues.Plain :=
  .submit (.submit .done .done) (.submit .done (.submit .done (.submit .done .done)))

theorem conserves_work_diverted : ∃ history loop,
    (⟨{ config := ⟨0⟩ }, .done⟩ : Moment Unit).Goes 9 history ⟨loop, .done⟩ ∧
      history.submitted.map Job.route = [.scheduled, .timed 5 0, .diverted, .yielded] ∧
      (history.startedJobs ++ loop.waiting).Perm history.submitted ∧
      ∃ after more, loop.drain 9 = some (5, after) ∧
        (history ++ more).startedJobs.Perm (history ++ more).submitted := by
  have goes : (⟨{ config := ⟨0⟩ }, .done⟩ : Moment Unit).Goes 9 _ ⟨_, .done⟩ :=
    ((((Goes.here.perform allQueues_plain).move .submit).move .submit).move .submit).move .submit
  obtain ⟨accounts, -, -, between⟩ := goes.conserves_work
  obtain ⟨-, -, after, more, -, drained⟩ := between rfl
  refine ⟨_, _, goes, rfl, accounts.conserved, ?_⟩
  rcases drained with ⟨drained, -, all⟩ | ⟨cut, -⟩
  · have five : some 5 = some more.started.length := congrArg (Option.map Prod.fst) drained
    exact ⟨after, more, drained.trans (by rw [Option.some.inj five]), all⟩
  · exact absurd cut (by rintro ⟨⟩)

end Moment

end Deferred
