import Deferred.Proofs.Loop.Conservation

/-! The periodic yield, counted exactly. All that schedules on a loop shares one count, so the law is about
every way to mix scheduled jobs with deferred ones, low-priority ones, timers and turns, also turns that jobs
make themselves. Of the scheduled jobs each `m + 2`nd is diverted, where `m` is the limit: the count has to
exceed the limit before the yield, and the job that is diverted is not counted itself. -/

namespace Deferred

variable {σ : Type}

def Route.isCounted : Route → Bool
  | .scheduled | .diverted => true
  | .deferred | .yielded | .timed _ _ => false

def Job.isDiverted (job : Job σ) : Bool :=
  job.route = .diverted

def History.scheduled (history : History σ) : List (Job σ) :=
  history.submitted.filter fun job => job.route.isCounted

/-- A script under which the limit stays what it is, whatever it submits and wakes. -/
inductive Script.Steady : Script σ → Prop
  | done : Steady .done
  | stuck : Steady .stuck
  | submit {lane job next} (steadyJob : Steady (job ())) (steady : Steady next) :
      Steady (.submit lane job next)
  | now {next} (steady : ∀ time, Steady (next time)) : Steady (.now next)
  | record {event next} (steady : Steady next) : Steady (.record event next)
  | review {next} (steady : ∀ journal, Steady (next journal)) : Steady (.review next)
  | gather {content next} (steady : ∀ number, Steady (next number)) : Steady (.gather content next)
  | look {number next} (steady : ∀ content, Steady (next content)) : Steady (.look number next)
  | put {number content next} (steady : Steady next) : Steady (.put number content next)
  | inspect {next} (steady : ∀ stats config, Steady (next stats config)) : Steady (.inspect next)
  | turn {next} (steady : ∀ outcome, Steady (next outcome)) : Steady (.turn next)
  | drain {next} (steady : ∀ count, Steady (next count)) : Steady (.drain next)
  | hold {next} (steady : ∀ waker, Steady (next waker)) : Steady (.hold next)
  | wake {waker rest next} (steadyRest : Steady (rest ())) (steady : Steady next) :
      Steady (.wake waker rest next)
  | await {waker next} (steady : ∀ woken, Steady (next woken)) : Steady (.await waker next)
  | budget {next} (steady : ∀ bound, Steady (next bound)) : Steady (.budget next)

namespace Loop

/-- The steps do not change the limit. -/
abbrev Runs (first : Loop σ) : History σ → Loop σ → Prop :=
  Passes (fun loop after => after.config = loop.config) first

end Loop

/-- Among the first scheduled jobs, however many, each of a rank that `period` divides is diverted. -/
def YieldsEvery (period : Nat) (calls : List (Job σ)) : Prop :=
  ∀ first, first <+: calls → first.countP Job.isDiverted = first.length / period

namespace YieldsEvery

variable {period : Nat} {calls : List (Job σ)}

theorem nil : YieldsEvery period ([] : List (Job σ)) := by
  intro first isPrefix
  simp [List.prefix_nil.mp isPrefix]

theorem concat (yields : YieldsEvery period calls) {job : Job σ}
    (due : job.isDiverted = true ↔ period ∣ calls.length + 1) : YieldsEvery period (calls ++ [job]) := by
  intro first isPrefix
  rcases List.prefix_concat_iff.mp isPrefix with rfl | isPrefix
  · rw [List.countP_append, yields calls (List.prefix_refl _), List.length_append, List.length_singleton,
      Nat.succ_div, List.countP_singleton]
    exact congrArg (calls.length / period + ·) (if_congr due rfl rfl)
  · exact yields first isPrefix

theorem window (yields : YieldsEvery period calls) (positive : 0 < period) {part : List (Job σ)}
    (consecutive : part <:+: calls) (length : part.length = period) :
    part.countP Job.isDiverted = 1 := by
  obtain ⟨before, after, rfl⟩ := consecutive
  -- The law counts from the start; the calls in a row are what one prefix has and a shorter one has not.
  have whole := yields (before ++ part) (List.prefix_append _ _)
  have start := yields before ((List.prefix_append _ _).trans (List.prefix_append _ _))
  rw [List.countP_append, start, List.length_append, length, Nat.add_div_right _ positive] at whole
  omega

theorem countP_not (yields : YieldsEvery period calls) :
    calls.countP (fun job => !job.isDiverted) = calls.length - calls.length / period := by
  have parts := calls.length_eq_countP_add_countP Job.isDiverted
  rw [yields calls (List.prefix_refl _)] at parts
  simp only [Bool.not_eq_true, ← Bool.not_eq_true', Bool.decide_eq_true] at parts
  omega

end YieldsEvery

namespace Loop

structure Counts (loop : Loop σ) (history : History σ) : Prop where
  yields : YieldsEvery (loop.config.maxStreak + 2) history.scheduled
  streak : loop.streak = history.scheduled.length % (loop.config.maxStreak + 2)

theorem Counts.streak_le {loop : Loop σ} {history : History σ} (counts : loop.Counts history) :
    loop.streak ≤ loop.config.maxStreak + 1 :=
  Nat.le_of_lt_succ (counts.streak ▸ Nat.mod_lt _ (Nat.succ_pos _))

theorem Counts.succ_mod {loop : Loop σ} {history : History σ} (counts : loop.Counts history) :
    (history.scheduled.length + 1) % (loop.config.maxStreak + 2) =
      if loop.config.maxStreak < loop.streak then 0 else loop.streak + 1 := by
  have bounded := counts.streak_le
  rw [← Nat.mod_add_mod, ← counts.streak]
  split
  next exceeded =>
    have full : loop.streak + 1 = loop.config.maxStreak + 2 := by omega
    rw [full, Nat.mod_self]
  next => exact Nat.mod_eq_of_lt (by omega)

theorem Counts.exceeds_iff {loop : Loop σ} {history : History σ} (counts : loop.Counts history) :
    loop.config.maxStreak < loop.streak ↔
      loop.config.maxStreak + 2 ∣ history.scheduled.length + 1 := by
  rw [Nat.dvd_iff_mod_eq_zero, counts.succ_mod]
  split <;> simp_all

theorem isCounted_jobOf (loop : Loop σ) (lane : Lane) (script : Unit → Script σ) :
    (loop.jobOf lane script).route.isCounted = true ↔ lane = .scheduled := by
  cases lane with
  | scheduled =>
    simp only [jobOf, issue, routeOf]
    split <;> simp [Route.isCounted]
  | deferred | yielded | after => simp [jobOf, issue, routeOf, Route.isCounted]

theorem submit_config (loop : Loop σ) (lane : Lane) (script : Unit → Script σ) :
    (loop.submit lane script).config = loop.config := by
  obtain ⟨_, _, _, _, _, _, _, same⟩ := loop.submit_eq lane script
  rw [same]

theorem submit_streak (loop : Loop σ) (lane : Lane) (script : Unit → Script σ) :
    (loop.submit lane script).streak =
      if lane = .scheduled then if loop.config.maxStreak < loop.streak then 0 else loop.streak + 1
      else loop.streak := by
  cases lane with
  | scheduled =>
    simp only [submit, schedule, if_true]
    split <;> rfl
  | deferred | yielded | after => rfl

theorem schedule_queues (loop : Loop σ) (script : Unit → Script σ) :
    if loop.config.maxStreak < loop.streak then
      (loop.submit .scheduled script).low.toList =
          loop.low.toList ++ [loop.issue .diverted script] ∧
        (loop.submit .scheduled script).ready = loop.ready
    else
      (loop.submit .scheduled script).ready.toList =
          loop.ready.toList ++ [loop.issue .scheduled script] ∧
        (loop.submit .scheduled script).low = loop.low := by
  simp only [submit, schedule]
  split <;> simp [record]

theorem Counts.frame {loop after : Loop σ} {history : History σ} {deed : Deed σ}
    (counts : loop.Counts history) (config : after.config = loop.config)
    (streak : after.streak = loop.streak) (uncounted : History.scheduled [deed] = []) :
    after.Counts (history ++ [deed]) := by
  have same : History.scheduled (history ++ [deed]) = history.scheduled := by
    rw [History.scheduled, History.submitted_append, List.filter_append]
    exact (congrArg _ uncounted).trans (List.append_nil _)
  exact ⟨same ▸ config ▸ counts.yields, by rw [same, config, streak, counts.streak]⟩

theorem Counts.submit {loop : Loop σ} {history : History σ} (counts : loop.Counts history)
    (lane : Lane) (script : Unit → Script σ) :
    (loop.submit lane script).Counts (history ++ [.submitted (loop.jobOf lane script)]) := by
  have config := loop.submit_config lane script
  have streak := loop.submit_streak lane script
  have counted := loop.isCounted_jobOf lane script
  by_cases scheduled : lane = .scheduled
  · subst scheduled
    have called : History.scheduled (history ++ [.submitted (loop.jobOf .scheduled script)]) =
        history.scheduled ++ [loop.jobOf .scheduled script] := by
      rw [History.scheduled, History.submitted_append, List.filter_append]
      exact congrArg _ (List.filter_cons_of_pos (counted.mpr rfl))
    have due : (loop.jobOf .scheduled script).isDiverted = true ↔
        loop.config.maxStreak + 2 ∣ history.scheduled.length + 1 := by
      rw [← counts.exceeds_iff]
      simp [Job.isDiverted, jobOf, issue, routeOf]
    refine ⟨?_, ?_⟩
    · rw [config, called]
      exact counts.yields.concat due
    · rw [config, called, List.length_append, List.length_singleton, counts.succ_mod, streak, if_pos rfl]
  · refine counts.frame config (streak.trans (if_neg scheduled)) (List.filter_eq_nil_iff.mpr ?_)
    intro job submitted
    obtain rfl : job = loop.jobOf lane script := by simpa [History.submitted, Deed.submits] using submitted
    exact fun same => scheduled (counted.mp same)

theorem Step.counts {loop after : Loop σ} {deed : Deed σ} {history : History σ}
    (step : loop.Step deed after) (limit : after.config = loop.config) (counts : loop.Counts history) :
    after.Counts (history ++ [deed]) := by
  cases step with
  | submit lane script => exact counts.submit lane script
  | work => exact counts.frame limit rfl rfl
  | @start job popped found =>
    have decides := loop.decides_next
    rw [found] at decides
    cases decides with
    | ready | low => exact counts.frame limit rfl rfl
  | sleep => exact counts.frame limit rfl rfl

theorem Runs.counts {config : Config} {history : History σ} {loop : Loop σ}
    (runs : ({ config } : Loop σ).Runs history loop) :
    loop.config = config ∧ loop.Counts history := by
  induction runs with
  | here => exact ⟨rfl, .nil, rfl⟩
  | step _ step limit ih => exact ⟨limit.trans ih.1, step.counts limit ih.2⟩

structure Steady (loop : Loop σ) : Prop where
  waiting : ∀ job ∈ loop.waiting, (job.script ()).Steady
  wakers : ∀ waker rest, loop.rest? waker = some rest → (rest ()).Steady

theorem steady_fresh (config : Config) : ({ config } : Loop σ).Steady :=
  ⟨fun _ waits => absurd waits (by simp [waiting, Queue.toList, Queue.empty]),
    fun _ _ given => absurd given (by simp [rest?])⟩

theorem Steady.submit {loop : Loop σ} (steady : loop.Steady) (lane : Lane) {script : Unit → Script σ}
    (submitted : (script ()).Steady) : (loop.submit lane script).Steady := by
  refine ⟨fun job waits => ?_, ?_⟩
  · rcases List.mem_append.mp ((loop.submit_places lane script).waiting.mem_iff.mp waits) with waits | new
    · exact steady.waiting job waits
    · obtain rfl := List.mem_singleton.mp new
      exact submitted
  · obtain ⟨_, _, _, _, _, _, _, same⟩ := loop.submit_eq lane script
    rw [same]
    exact steady.wakers

theorem Steady.start {loop popped : Loop σ} {job : Job σ} (steady : loop.Steady)
    (found : loop.next = .run job popped) : (job.script ()).Steady ∧ (popped.start job).Steady := by
  have decides := loop.decides_next
  rw [found] at decides
  have waiting : ∀ other ∈ job :: popped.waiting, (other.script ()).Steady :=
    fun other waits => steady.waiting other (decides.waiting.mem_iff.mpr waits)
  refine ⟨waiting job List.mem_cons_self, fun other waits => waiting other (List.mem_cons_of_mem _ waits), ?_⟩
  cases decides with
  | ready | low => exact steady.wakers

def Proceeds (loop after : Loop σ) : Prop :=
  ∃ more, loop.Runs more after ∧ after.Steady

theorem Steady.proceeds {loop : Loop σ} (steady : loop.Steady) : loop.Proceeds loop :=
  ⟨[], .here, steady⟩

theorem Step.proceeds {loop next after : Loop σ} {deed : Deed σ} (step : loop.Step deed next)
    (limit : next.config = loop.config) (proceeds : next.Proceeds after) : loop.Proceeds after := by
  obtain ⟨more, runs, steady⟩ := proceeds
  exact ⟨[deed] ++ more, (Passes.here.step step limit).trans runs, steady⟩

theorem Proceeds.work {loop after : Loop σ} {groups : Array (Group σ)} {wakers : Array (Option (Unit → Script σ))}
    {journal : List (Nat × Event)} (proceeds : ({ loop with groups, wakers, journal } : Loop σ).Proceeds after) :
    loop.Proceeds after :=
  (Step.work loop.config loop.clock groups wakers journal).proceeds rfl proceeds

theorem Proceeds.bind {loop next after : Loop σ} (proceeds : loop.Proceeds next)
    (rest : next.Steady → next.Proceeds after) : loop.Proceeds after := by
  obtain ⟨more, runs, steady⟩ := proceeds
  obtain ⟨further, runs', steady'⟩ := rest steady
  exact ⟨more ++ further, runs.trans runs', steady'⟩

end Loop

structure Host.Steady (host : Host σ) : Prop where
  turn : ∀ {loop outcome after}, loop.Steady → host.turn loop = some (outcome, after) → loop.Proceeds after
  finish : ∀ {script loop after}, script.Steady → loop.Steady →
    host.finish script loop = some after → loop.Proceeds after

namespace Loop

theorem driveWith_proceeds {turn : Loop σ → Option (Turn × Loop σ)}
    (steadily : ∀ {loop outcome after}, loop.Steady → turn loop = some (outcome, after) → loop.Proceeds after)
    {halt : Loop σ → Bool} {bound ran count : Nat} {loop after : Loop σ} (steady : loop.Steady)
    (driven : driveWith turn halt bound ran loop = some (count, after)) : loop.Proceeds after := by
  induction bound generalizing ran loop with
  | zero => exact absurd driven (by simp [driveWith])
  | succ bound ih =>
    simp only [driveWith] at driven
    split at driven
    next =>
      obtain ⟨_, rfl⟩ := Prod.mk.inj (Option.some.inj driven)
      exact steady.proceeds
    next =>
      split at driven
      next => exact absurd driven (by simp)
      next turned => exact (steadily steady turned).bind fun steady => ih steady driven
      next turned => exact (steadily steady turned).bind fun steady => ih steady driven
      next turned =>
        obtain ⟨_, rfl⟩ := Prod.mk.inj (Option.some.inj driven)
        exact steadily steady turned

theorem Steady.hold {loop : Loop σ} (steady : loop.Steady) : loop.hold.Steady := by
  refine ⟨steady.waiting, fun waker rest given => steady.wakers waker rest ?_⟩
  simp only [Loop.hold, rest?, Array.getElem?_push] at given ⊢
  split at given
  next => exact absurd given (by simp)
  next => exact given

theorem Steady.wake {loop : Loop σ} (steady : loop.Steady) (waker : Nat) {rest : Unit → Script σ}
    (woken : (rest ()).Steady) : (loop.wake waker rest).Steady := by
  refine ⟨steady.waiting, fun other given found => ?_⟩
  simp only [Loop.wake, rest?, Array.getElem?_setIfInBounds] at found
  split at found
  next =>
    split at found
    next =>
      obtain rfl := Option.some.inj found
      exact woken
    next => exact absurd found (by simp)
  next => exact steady.wakers other given found

theorem Steady.clearWaker {loop : Loop σ} (steady : loop.Steady) (waker : Nat) :
    (loop.clearWaker waker).Steady := by
  refine ⟨steady.waiting, fun other rest given => steady.wakers other rest ?_⟩
  simp only [Loop.clearWaker, rest?, Array.getElem?_setIfInBounds] at given ⊢
  split at given
  next => split at given <;> exact absurd given (by simp)
  next => exact given

end Loop

theorem Script.Steady.run {host : Host σ} (good : host.Steady) {script : Script σ} (steady : script.Steady)
    {loop after : Loop σ} (calm : loop.Steady) (ran : script.run host loop = some after) :
    loop.Proceeds after := by
  induction steady generalizing loop with
  | done =>
    obtain rfl := Option.some.inj ran
    exact calm.proceeds
  | stuck => cases ran
  | submit steadyJob _ _ ih =>
    exact (Loop.Step.submit ..).proceeds (loop.submit_config _ _) (ih (calm.submit _ steadyJob) ran)
  | now _ ih | review _ ih | look _ ih | budget _ ih => exact ih _ calm ran
  | inspect _ ih => exact ih _ _ calm ran
  | @record event _ _ ih =>
    have proceeds : (loop.record event).Proceeds after := ih ⟨calm.waiting, calm.wakers⟩ ran
    exact .work proceeds
  | @put number content _ _ ih =>
    have proceeds : (loop.put number content).Proceeds after := ih ⟨calm.waiting, calm.wakers⟩ ran
    exact .work proceeds
  | @gather content _ _ ih =>
    have proceeds : (loop.gather content).Proceeds after := ih _ ⟨calm.waiting, calm.wakers⟩ ran
    exact .work proceeds
  | hold _ ih =>
    have proceeds := ih _ calm.hold ran
    exact .work proceeds
  | wake steadyRest _ _ ih =>
    have proceeds := ih (calm.wake _ steadyRest) ran
    exact .work proceeds
  | turn _ ih =>
    simp only [Script.run] at ran
    split at ran
    next => exact absurd ran (by simp)
    next turned => exact (good.turn calm turned).bind fun calm => ih _ calm ran
  | drain _ ih =>
    simp only [Script.run] at ran
    split at ran
    next => exact absurd ran (by simp)
    next driven => exact (Loop.driveWith_proceeds good.turn calm driven).bind fun calm => ih _ calm ran
  | @await waker _ _ ih =>
    simp only [Script.run] at ran
    split at ran
    next => exact absurd ran (by simp)
    next driven =>
      apply (Loop.driveWith_proceeds good.turn calm driven).bind
      intro calm
      split at ran
      next => exact ih _ calm ran
      next rest given =>
        split at ran
        next => exact absurd ran (by simp)
        next finished =>
          apply Loop.Proceeds.work
          exact (good.finish (calm.wakers _ _ given) (calm.clearWaker waker) finished).bind
            fun calm => ih _ calm ran

namespace Loop

theorem turnOn_proceeds {host : Host σ} (good : host.Steady) {loop after : Loop σ} {outcome : Turn}
    (steady : loop.Steady) (turned : loop.turnOn host = some (outcome, after)) : loop.Proceeds after := by
  unfold turnOn at turned
  split at turned
  next job popped found =>
    obtain ⟨ended, ran, same⟩ := Option.map_eq_some_iff.mp turned
    obtain ⟨_, rfl⟩ := Prod.mk.inj same
    obtain ⟨script, steady⟩ := steady.start found
    have limit : popped.config = loop.config := by
      have decides := loop.decides_next
      rw [found] at decides
      cases decides with
      | ready | low => rfl
    exact (Step.start found).proceeds limit (script.run good steady ran)
  next deadline found =>
    obtain ⟨_, rfl⟩ := Prod.mk.inj (Option.some.inj turned)
    exact (Step.sleep found).proceeds rfl (Steady.proceeds ⟨steady.waiting, steady.wakers⟩)
  next =>
    obtain ⟨_, rfl⟩ := Prod.mk.inj (Option.some.inj turned)
    exact steady.proceeds

theorem steady_hostAt (bound depth : Nat) : (hostAt bound depth : Host σ).Steady := by
  induction depth with
  | zero =>
    refine ⟨?_, ?_⟩
    · intro loop outcome after _ turned
      exact absurd turned (by simp [hostAt])
    · intro script loop after _ _ finished
      exact absurd finished (by simp [hostAt])
  | succ depth ih => exact ⟨turnOn_proceeds ih, fun steady calm finished => steady.run ih calm finished⟩

/-- The periodic yield keeps exact accounts. On a new loop with the limit `m` each `m + 2`nd scheduled job goes
to the low-priority queue and the others to the high-priority queue, whatever else is submitted between them,
and wherever turns are made. The count is the remainder, and so at most `m + 1`; any `m + 2` calls in a
row have one diverted job. Scripts that do not change the limit are made of such steps, from
outside or in the turns of a loop on which no other scripts wait, and however deep they nest turns. -/
theorem Runs.yields_periodically {limit : Nat} {history : History σ} {loop : Loop σ}
    (runs : ({ config := ⟨limit⟩ } : Loop σ).Runs history loop) :
    history.scheduled.countP Job.isDiverted = history.scheduled.length / (limit + 2) ∧
    history.scheduled.countP (fun job => !job.isDiverted) =
      history.scheduled.length - history.scheduled.length / (limit + 2) ∧
    loop.streak = history.scheduled.length % (limit + 2) ∧ loop.streak ≤ limit + 1 ∧
    (∀ calls, calls <:+: history.scheduled → calls.length = limit + 2 →
      calls.countP Job.isDiverted = 1) ∧
    loop.Accounts history ∧
    (∀ lane script, (loop.jobOf lane script).route.isCounted = true ↔ lane = .scheduled) ∧
    (∀ script, if limit + 2 ∣ history.scheduled.length + 1 then
        (loop.submit .scheduled script).low.toList =
            loop.low.toList ++ [loop.issue .diverted script] ∧
          (loop.submit .scheduled script).ready = loop.ready
      else
        (loop.submit .scheduled script).ready.toList =
            loop.ready.toList ++ [loop.issue .scheduled script] ∧
          (loop.submit .scheduled script).low = loop.low) ∧
    (loop.Steady → ∀ bound,
      (∀ script after, script.Steady → loop.perform bound script = some after → loop.Proceeds after) ∧
      (∀ outcome after, loop.turn bound = some (outcome, after) → loop.Proceeds after) ∧
      (∀ count after, loop.drain bound = some (count, after) → loop.Proceeds after)) := by
  obtain ⟨config, counts⟩ := runs.counts
  have limited : loop.config.maxStreak = limit := by rw [config]
  have yields := limited ▸ counts.yields
  have streak := limited ▸ counts.streak
  have exceeds := limited ▸ counts.exceeds_iff
  refine ⟨yields _ (List.prefix_refl _), yields.countP_not, streak, limited ▸ counts.streak_le, ?_,
    runs.accounts.2, loop.isCounted_jobOf, fun script => ?_, fun steady bound => ?_⟩
  · exact fun calls consecutive length => yields.window (Nat.succ_pos _) consecutive length
  · have queues := loop.schedule_queues script
    simp only [limited, exceeds] at queues
    exact queues
  · have good : (hostAt bound bound : Host σ).Steady := steady_hostAt bound bound
    refine ⟨fun script after quiet ran => quiet.run good steady ran,
      fun outcome after turned => turnOn_proceeds good steady turned, fun count after drained => ?_⟩
    exact driveWith_proceeds (turnOn_proceeds good) steady drained

def scheduling : Script Unit :=
  .submit .scheduled (fun _ => .done) .done

theorem scheduling_steady : scheduling.Steady :=
  .submit .done .done

theorem yields_periodically_within_turn : ∃ history loop,
    ({ config := ⟨0⟩ } : Loop Unit).Runs history loop ∧
      history.submitted.map (fun job => job.route) = [.scheduled, .deferred, .diverted] ∧
      history.scheduled.countP Job.isDiverted = 1 ∧ loop.streak = 0 ∧
      (∀ calls, calls <:+: history.scheduled → calls.length = 2 → calls.countP Job.isDiverted = 1) ∧
      loop.Steady ∧
      ∃ after, loop.perform 9 scheduling = some after ∧ loop.Proceeds after ∧ after.streak = 1 := by
  have waits : ({ config := ⟨0⟩ } : Loop Unit).Runs _ _ :=
    (Passes.here.step (.submit .scheduled fun _ => scheduling) rfl).step (.submit .deferred fun _ => .done) rfl
  have runs : ({ config := ⟨0⟩ } : Loop Unit).Runs _ _ :=
    (waits.step (.start rfl) rfl).step (.submit .scheduled fun _ => .done) rfl
  obtain ⟨diverted, -, streak, -, window, -, -, -, steadily⟩ := runs.yields_periodically
  have queued : Steady (submit { config := ⟨0⟩ } .scheduled fun _ => scheduling) :=
    (steady_fresh ⟨0⟩).submit .scheduled scheduling_steady
  have deferred : Steady (submit _ .deferred fun _ => .done) := queued.submit .deferred .done
  have steady : Steady (submit _ .scheduled fun _ => .done) := (deferred.start rfl).2.submit .scheduled .done
  exact ⟨_, _, runs, rfl, diverted, streak, window, steady, _, rfl,
    (steadily steady 9).1 _ _ scheduling_steady rfl, rfl⟩

end Loop

end Deferred
