import Deferred.Proofs.Loop.Pool

/-! The life of a loop, one effect at a time. A moment is a loop together with what the running job still
has to do, which is nothing between turns. A loop gets from one moment to the next by an effect of the
running script, by starting a job or by sleeping, and what it does is kept as a list of deeds. Turns and
runs of turns consist of such moves as long as no job makes turns itself. -/

namespace Deferred

variable {σ : Type}

/-- A script that comes to an end without turns of its own, like those of all jobs that it submits. -/
inductive Script.Plain : Script σ → Prop
  | done : Plain .done
  | submit {lane job next} (plainJob : Plain (job ())) (plain : Plain next) :
      Plain (.submit lane job next)
  | now {next} (plain : ∀ time, Plain (next time)) : Plain (.now next)
  | record {event next} (plain : Plain next) : Plain (.record event next)
  | review {next} (plain : ∀ journal, Plain (next journal)) : Plain (.review next)
  | gather {content next} (plain : ∀ number, Plain (next number)) : Plain (.gather content next)
  | look {number next} (plain : ∀ content, Plain (next content)) : Plain (.look number next)
  | put {number content next} (plain : Plain next) : Plain (.put number content next)
  | configure {config next} (plain : Plain next) : Plain (.configure config next)
  | inspect {next} (plain : ∀ stats config, Plain (next stats config)) : Plain (.inspect next)
  | hold {next} (plain : ∀ waker, Plain (next waker)) : Plain (.hold next)
  | wake {waker rest next} (plain : Plain next) : Plain (.wake waker rest next)
  | budget {next} (plain : ∀ bound, Plain (next bound)) : Plain (.budget next)

def Script.effect? (bound : Nat) : Script σ → Loop σ → Option (Script σ × Loop σ)
  | .now next, loop => some (next loop.clock, loop)
  | .record event next, loop => some (next, loop.record event)
  | .review next, loop => some (next loop.journal, loop)
  | .gather group next, loop => some (next loop.groups.size, loop.gather group)
  | .look number next, loop => some (next (loop.group number), loop)
  | .put number content next, loop => some (next, loop.put number content)
  | .configure config next, loop => some (next, { loop with config })
  | .inspect next, loop => some (next loop.stats loop.config, loop)
  | .hold next, loop => some (next loop.wakers.size, loop.hold)
  | .wake waker rest next, loop => some (next, loop.wake waker rest)
  | .budget next, loop => some (next bound, loop)
  | _, _ => none

theorem Script.effect?_eq {bound : Nat} {script next : Script σ} {loop loop' : Loop σ}
    (stepped : script.effect? bound loop = some (next, loop')) :
    ∃ config groups wakers journal, loop' = { loop with config, groups, wakers, journal } := by
  cases script with
  | done | stuck | submit | turn | drain | await => exact absurd stepped (by simp [effect?])
  | now | review | look | inspect | budget | record | gather | put | configure | hold | wake =>
    obtain ⟨rfl, rfl⟩ := Prod.mk.inj (Option.some.inj stepped)
    exact ⟨_, _, _, _, rfl⟩

theorem Script.run_of_effect? {host : Host σ} {script next : Script σ} {loop loop' : Loop σ}
    (stepped : script.effect? host.bound loop = some (next, loop')) :
    script.run host loop = next.run host loop' := by
  cases script with
  | done | stuck | submit | turn | drain | await => exact absurd stepped (by simp [effect?])
  | now | review | look | inspect | budget | record | gather | put | configure | hold | wake =>
    obtain ⟨rfl, rfl⟩ := Prod.mk.inj (Option.some.inj stepped)
    rfl

theorem Script.Plain.effect {bound : Nat} {script next : Script σ} {loop loop' : Loop σ}
    (plain : script.Plain) (stepped : script.effect? bound loop = some (next, loop')) : next.Plain := by
  cases plain with
  | done | submit => exact absurd stepped (by simp [effect?])
  | record plain | put plain | configure plain | wake plain =>
    exact (Prod.mk.inj (Option.some.inj stepped)).1 ▸ plain
  | now plain | review plain | gather plain | look plain | hold plain | budget plain =>
    exact (Prod.mk.inj (Option.some.inj stepped)).1 ▸ plain _
  | inspect plain => exact (Prod.mk.inj (Option.some.inj stepped)).1 ▸ plain _ _

def Route.isLow : Route → Bool
  | .diverted | .yielded => true
  | .scheduled | .deferred | .timed _ _ => false

def Route.isTimed : Route → Bool
  | .timed _ _ => true
  | .scheduled | .diverted | .deferred | .yielded => false

namespace Loop

def routeOf (loop : Loop σ) : Lane → Route
  | .scheduled => if loop.config.maxStreak < loop.streak then .diverted else .scheduled
  | .deferred => .deferred
  | .yielded => .yielded
  | .after delay => .timed (loop.clock + delay) loop.armed

def jobOf (loop : Loop σ) (lane : Lane) (script : Unit → Script σ) : Job σ :=
  loop.issue (loop.routeOf lane) script

def waiting (loop : Loop σ) : List (Job σ) :=
  loop.ready.toList ++ loop.low.toList ++ loop.timers.map Timer.job

inductive Places (loop : Loop σ) (job : Job σ) : Loop σ → Prop
  | ready (low : job.route.isLow = false) (timed : job.route.isTimed = false) (streak : Nat) :
      Places loop job
        { loop with ready := loop.ready.push job, streak, issued := loop.issued + 1 }
  | low (low : job.route.isLow = true) (timed : job.route.isTimed = false) (streak : Nat)
      (journal : List (Nat × Event)) : Places loop job
        { loop with low := loop.low.push job, streak, issued := loop.issued + 1, journal }
  | timed (delay : Nat) (route : job.route = .timed (loop.clock + delay) loop.armed)
      (journal : List (Nat × Event)) : Places loop job
        { loop with
          timers := insertTimer ⟨loop.clock + delay, loop.armed, job⟩ loop.timers
          armed := loop.armed + 1
          issued := loop.issued + 1
          journal }

theorem submit_places (loop : Loop σ) (lane : Lane) (script : Unit → Script σ) :
    loop.Places (loop.jobOf lane script) (loop.submit lane script) := by
  cases lane with
  | scheduled =>
    simp only [submit, schedule, jobOf, routeOf]
    split
    next => exact .low rfl rfl 0 _
    next => exact .ready rfl rfl (loop.streak + 1)
  | deferred => exact .ready rfl rfl loop.streak
  | yielded => exact .low rfl rfl loop.streak loop.journal
  | after delay => exact .timed delay rfl _

theorem Places.waiting {loop after : Loop σ} {job : Job σ} (places : loop.Places job after) :
    after.waiting.Perm (loop.waiting ++ [job]) := by
  rw [← Multiset.coe_eq_coe]
  cases places with
  | ready => simp only [Loop.waiting, Queue.toList_push, ← Multiset.coe_add]; abel
  | low => simp only [Loop.waiting, Queue.toList_push, ← Multiset.coe_add]; abel
  | timed delay _ _ =>
    have inserted := Multiset.coe_eq_coe.mpr
      ((insertTimer_perm ⟨loop.clock + delay, loop.armed, job⟩ loop.timers).map Timer.job)
    rw [List.map_cons, ← List.singleton_append, ← Multiset.coe_add] at inserted
    simp only [Loop.waiting, ← Multiset.coe_add, inserted]; abel

theorem Decides.waiting {loop popped : Loop σ} {job : Job σ}
    (decides : loop.Decides (.run job popped)) : loop.waiting.Perm (job :: popped.waiting) := by
  rw [← Multiset.coe_eq_coe, ← List.singleton_append, ← Multiset.coe_add]
  cases decides with
  | @ready _ ready timers _ taken due _ =>
    have first : (↑loop.ready.toList + ↑loop.fallingDue : Multiset (Job σ)) = ↑[job] + ↑ready.toList := by
      rw [Multiset.coe_add, taken]
      rfl
    simp only [Loop.waiting, due, ← Multiset.coe_add]
    calc (↑loop.ready.toList + ↑loop.low.toList +
          (↑loop.fallingDue + ↑(timers.map Timer.job)) : Multiset (Job σ))
        = (↑loop.ready.toList + ↑loop.fallingDue) + ↑loop.low.toList + ↑(timers.map Timer.job) := by abel
      _ = ↑[job] + (↑ready.toList + ↑loop.low.toList + ↑(timers.map Timer.job)) := by rw [first]; abel
  | low unready still _ taken =>
    rw [← List.singleton_append] at taken
    simp only [Loop.waiting, unready, still, taken, ← Multiset.coe_add]
    abel

end Loop

/-- A loop, and what its running job still has to do; between turns that is nothing. -/
structure Moment (σ : Type) where
  loop : Loop σ
  running : Script σ

inductive Deed (σ : Type) where
  /-- Something that neither queues a job nor starts one. -/
  | worked
  | submitted (job : Job σ)
  /-- A turn has started a job, after the jobs of due timers have become ready. -/
  | started (time : Nat) (fired : List (Job σ)) (job : Job σ)
  | slept (deadline : Nat)

abbrev History (σ : Type) : Type :=
  List (Deed σ)

namespace Deed

def submits : Deed σ → List (Job σ)
  | .submitted job => [job]
  | .worked | .started _ _ _ | .slept _ => []

def readies : Deed σ → List (Job σ)
  | .submitted job => if job.route.isLow || job.route.isTimed then [] else [job]
  | .started _ fired _ => fired
  | .worked | .slept _ => []

def starts : Deed σ → List (Nat × Job σ)
  | .started time _ job => [(time, job)]
  | .worked | .submitted _ | .slept _ => []

def sleeps : Deed σ → List Nat
  | .slept deadline => [deadline]
  | .worked | .submitted _ | .started _ _ _ => []

end Deed

namespace History

def submitted (history : History σ) : List (Job σ) :=
  history.flatMap Deed.submits

def readied (history : History σ) : List (Job σ) :=
  history.flatMap Deed.readies

def started (history : History σ) : List (Nat × Job σ) :=
  history.flatMap Deed.starts

def startedJobs (history : History σ) : List (Job σ) :=
  history.started.map Prod.snd

def slept (history : History σ) : List Nat :=
  history.flatMap Deed.sleeps

def turns (history : History σ) : Nat :=
  history.started.length + history.slept.length

variable (first second : History σ)

@[simp] theorem submitted_append :
    submitted (first ++ second) = submitted first ++ submitted second :=
  List.flatMap_append

@[simp] theorem readied_append : readied (first ++ second) = readied first ++ readied second :=
  List.flatMap_append

@[simp] theorem started_append : started (first ++ second) = started first ++ started second :=
  List.flatMap_append

@[simp] theorem startedJobs_append :
    startedJobs (first ++ second) = startedJobs first ++ startedJobs second := by
  simp [startedJobs]

@[simp] theorem slept_append : slept (first ++ second) = slept first ++ slept second :=
  List.flatMap_append

@[simp] theorem turns_append : turns (first ++ second) = turns first + turns second := by
  simp only [turns, started_append, slept_append, List.length_append]
  omega

end History

namespace Loop

/-- What can happen to a loop. A job may be submitted at any time, from outside or by a job that runs, time may pass
while a job works, and a turn may begin at any time, also within another one. -/
inductive Step (loop : Loop σ) : Deed σ → Loop σ → Prop
  | submit (lane : Lane) (script : Unit → Script σ) :
      Step loop (.submitted (loop.jobOf lane script)) (loop.submit lane script)
  | work (config : Config) (clock : Nat) (groups : Array (Group σ))
      (wakers : Array (Option (Unit → Script σ))) (journal : List (Nat × Event)) :
      Step loop .worked { loop with config, clock, groups, wakers, journal }
  | start {job popped} (found : loop.next = .run job popped) :
      Step loop (.started loop.clock loop.fallingDue job) (popped.start job)
  | sleep {deadline} (found : loop.next = .sleep deadline) :
      Step loop (.slept deadline) { loop with clock := deadline }

/-- A step adds what is submitted to the jobs that wait, and takes from them what is started. -/
theorem Step.waiting {loop after : Loop σ} {deed : Deed σ} (step : loop.Step deed after) :
    (deed.starts.map Prod.snd ++ after.waiting).Perm (loop.waiting ++ deed.submits) := by
  cases step with
  | submit => exact (submit_places ..).waiting
  | work | sleep => simp [Deed.starts, Deed.submits, Loop.waiting]
  | @start job popped found =>
    have decides := loop.decides_next
    rw [found] at decides
    rw [Deed.submits, List.append_nil]
    exact decides.waiting.symm

/-- A loop after any number of steps that keep what `keeps` says, and what it has done. -/
inductive Passes (keeps : Loop σ → Loop σ → Prop) (first : Loop σ) : History σ → Loop σ → Prop
  | here : Passes keeps first [] first
  | step {history loop deed after} (passes : Passes keeps first history loop) (step : loop.Step deed after)
      (kept : keeps loop after) : Passes keeps first (history ++ [deed]) after

theorem Passes.trans {keeps : Loop σ → Loop σ → Prop} {first middle last : Loop σ} {history more : History σ}
    (passes : first.Passes keeps history middle) (passes' : middle.Passes keeps more last) :
    first.Passes keeps (history ++ more) last := by
  induction passes' with
  | here => rwa [List.append_nil]
  | step _ step kept ih =>
    rw [← List.append_assoc]
    exact ih.step step kept

end Loop

namespace Moment

variable {bound : Nat}

inductive Moves (bound : Nat) : Moment σ → Deed σ → Moment σ → Prop
  | submit {loop lane job next} : Moves bound ⟨loop, .submit lane job next⟩
      (.submitted (loop.jobOf lane job)) ⟨loop.submit lane job, next⟩
  | work {loop loop' script next} (stepped : script.effect? bound loop = some (next, loop')) :
      Moves bound ⟨loop, script⟩ .worked ⟨loop', next⟩
  | start {loop popped job} (found : loop.next = .run job popped) :
      Moves bound ⟨loop, .done⟩ (.started loop.clock loop.fallingDue job)
        ⟨popped.start job, job.script ()⟩
  | sleep {loop deadline} (found : loop.next = .sleep deadline) :
      Moves bound ⟨loop, .done⟩ (.slept deadline) ⟨{ loop with clock := deadline }, .done⟩

/-- How a loop gets from one moment to a later one. Between turns a script may be run from outside. -/
inductive Goes (bound : Nat) (first : Moment σ) : History σ → Moment σ → Prop
  | here : Goes bound first [] first
  | perform {history loop script} (goes : Goes bound first history ⟨loop, .done⟩)
      (plain : script.Plain) : Goes bound first history ⟨loop, script⟩
  | move {history moment deed next} (goes : Goes bound first history moment)
      (moves : moment.Moves bound deed next) : Goes bound first (history ++ [deed]) next

theorem Goes.trans {first middle last : Moment σ} {history history' : History σ}
    (goes : first.Goes bound history middle) (goes' : middle.Goes bound history' last) :
    first.Goes bound (history ++ history') last := by
  induction goes' with
  | here => rwa [List.append_nil]
  | perform _ plain ih => exact ih.perform plain
  | move _ moves ih =>
    rw [← List.append_assoc]
    exact ih.move moves

theorem Moves.goes {first next last : Moment σ} {deed : Deed σ} {history : History σ}
    (moves : first.Moves bound deed next) (goes : next.Goes bound history last) :
    first.Goes bound (deed :: history) last :=
  (Goes.here.move moves).trans goes

theorem Moves.step {moment next : Moment σ} {deed : Deed σ} (moves : moment.Moves bound deed next) :
    moment.loop.Step deed next.loop := by
  cases moves with
  | submit => exact .submit ..
  | work stepped =>
    obtain ⟨_, _, _, _, rfl⟩ := Script.effect?_eq stepped
    exact .work ..
  | start found => exact .start found
  | sleep found => exact .sleep found

theorem Goes.passes {first last : Moment σ} {history : History σ} (goes : first.Goes bound history last) :
    first.loop.Passes (fun _ _ => True) history last.loop := by
  induction goes with
  | here => exact .here
  | perform _ _ ih => exact ih
  | move _ moves ih => exact ih.step moves.step trivial

structure Plain (moment : Moment σ) : Prop where
  running : moment.running.Plain
  waiting : ∀ job ∈ moment.loop.waiting, (job.script ()).Plain

theorem plain_fresh (config : Config) : (⟨{ config }, .done⟩ : Moment σ).Plain :=
  ⟨.done, fun _ waits => absurd waits (by simp [Loop.waiting, Queue.toList, Queue.empty])⟩

theorem Moves.plain {moment next : Moment σ} {deed : Deed σ} (moves : moment.Moves bound deed next)
    (plain : moment.Plain) : next.Plain := by
  have members : ∀ job, job ∈ deed.starts.map Prod.snd ∨ job ∈ next.loop.waiting ↔
      job ∈ moment.loop.waiting ∨ job ∈ deed.submits := by
    intro job
    simpa only [List.mem_append] using moves.step.waiting.mem_iff (a := job)
  cases moves with
  | @submit loop lane job next =>
    obtain ⟨running, waiting⟩ := plain
    cases running with
    | submit plainJob plain =>
      refine ⟨plain, fun other waits => ?_⟩
      rcases (members other).mp (.inr waits) with waits | same
      · exact waiting other waits
      · obtain rfl := List.mem_singleton.mp same
        exact plainJob
  | work stepped =>
    refine ⟨plain.running.effect stepped, fun other waits => ?_⟩
    exact plain.waiting other (((members other).mp (.inr waits)).resolve_right List.not_mem_nil)
  | start found =>
    have waited := (members _).mp (.inl (List.mem_singleton_self _))
    refine ⟨plain.waiting _ (waited.resolve_right List.not_mem_nil), fun other waits => ?_⟩
    exact plain.waiting other (((members other).mp (.inr waits)).resolve_right List.not_mem_nil)
  | sleep _ => exact ⟨plain.running, plain.waiting⟩

theorem Goes.plain {first moment : Moment σ} {history : History σ}
    (goes : first.Goes bound history moment) (plain : first.Plain) : moment.Plain := by
  induction goes with
  | here => exact plain
  | perform _ performed ih => exact ⟨performed, ih.waiting⟩
  | move _ moves ih => exact moves.plain ih

end Moment

/-- A plain script that is run to its end goes through one moment after another, and no turn is made. -/
theorem Script.Plain.goes {script : Script σ} (plain : script.Plain) (host : Host σ) (loop : Loop σ) :
    ∃ after history, script.run host loop = some after ∧
      (⟨loop, script⟩ : Moment σ).Goes host.bound history ⟨after, .done⟩ ∧ history.turns = 0 := by
  have worked : ∀ {script next : Script σ} {loop' : Loop σ} {loop : Loop σ},
      script.effect? host.bound loop = some (next, loop') →
      (∃ after history, next.run host loop' = some after ∧
        (⟨loop', next⟩ : Moment σ).Goes host.bound history ⟨after, .done⟩ ∧ history.turns = 0) →
      ∃ after history, script.run host loop = some after ∧
        (⟨loop, script⟩ : Moment σ).Goes host.bound history ⟨after, .done⟩ ∧ history.turns = 0 := by
    intro script next loop' loop stepped rest
    obtain ⟨after, history, ran, goes, unturned⟩ := rest
    exact ⟨after, .worked :: history, (run_of_effect? stepped).trans ran, (Moment.Moves.work stepped).goes goes,
      unturned⟩
  induction plain generalizing loop with
  | done => exact ⟨loop, [], rfl, .here, rfl⟩
  | submit _ _ _ ih =>
    obtain ⟨after, history, ran, goes, unturned⟩ := ih (loop.submit _ _)
    exact ⟨after, _ :: history, ran, Moment.Moves.submit.goes goes, unturned⟩
  | now _ ih | review _ ih | gather _ ih | look _ ih | hold _ ih | budget _ ih => exact worked rfl (ih _ _)
  | inspect _ ih => exact worked rfl (ih _ _ _)
  | record _ ih | put _ ih | configure _ ih | wake _ ih => exact worked rfl (ih _)

namespace Loop

theorem hostAt_bound (bound depth : Nat) : (hostAt bound depth : Host σ).bound = bound := by
  cases depth <;> rfl

end Loop

/-- Where no job makes turns, every turn has an outcome and is made of moves. It starts a job unless it
sleeps or finds nothing to do. -/
theorem Moment.Plain.turn {loop : Loop σ} (plain : (⟨loop, .done⟩ : Moment σ).Plain) (bound : Nat) :
    ∃ outcome after history, loop.turn bound = some (outcome, after) ∧
      (⟨loop, .done⟩ : Moment σ).Goes bound history ⟨after, .done⟩ ∧
      history.started.length = (if outcome = .ran then 1 else 0) ∧
      history.turns = (if outcome = .idle then 0 else 1) ∧ (outcome = .idle ↔ loop.Vacant) := by
  rw [← loop.next_eq_idle_iff]
  unfold Loop.turn Loop.turnOn
  cases found : loop.next with
  | run job popped =>
    have begins : (⟨loop, .done⟩ : Moment σ).Moves bound _ _ := .start found
    obtain ⟨after, history, ran, goes, unturned⟩ := (begins.plain plain).running.goes
      (Loop.hostAt bound bound) (popped.start job)
    rw [Loop.hostAt_bound] at goes
    have unstarted : history.started.length = 0 := by
      unfold History.turns at unturned
      omega
    refine ⟨.ran, after, _ :: history, by simp [ran], begins.goes goes, ?_, ?_, by simp⟩
    · rw [← List.singleton_append, History.started_append, List.length_append, unstarted]
      rfl
    · rw [← List.singleton_append, History.turns_append, unturned]
      rfl
  | sleep deadline =>
    exact ⟨.slept, _, _, rfl, (Moment.Moves.sleep found).goes .here, rfl, rfl, by simp⟩
  | idle => exact ⟨.idle, loop, [], rfl, .here, rfl, rfl, by simp⟩

/-- A run of turns is made of moves. If it comes to an end, then it has counted the jobs that it has
started and leaves nothing to be done; otherwise it has made as many turns as it may. -/
theorem Moment.Plain.drive {loop : Loop σ} {bound : Nat} (plain : (⟨loop, .done⟩ : Moment σ).Plain)
    (fuel ran : Nat) : ∃ after history,
      (⟨loop, .done⟩ : Moment σ).Goes bound history ⟨after, .done⟩ ∧
      (Loop.driveWith (Loop.turn bound) (fun _ => false) fuel ran loop =
          some (ran + history.started.length, after) ∧ after.Vacant ∨
        Loop.driveWith (Loop.turn bound) (fun _ => false) fuel ran loop = none ∧
          history.turns = fuel) := by
  induction fuel generalizing loop ran with
  | zero => exact ⟨loop, [], .here, .inr ⟨rfl, rfl⟩⟩
  | succ fuel ih =>
    obtain ⟨outcome, next, history, turned, goes, starts, turns, idle⟩ := plain.turn bound
    simp only [Loop.driveWith, turned, Bool.false_eq_true, if_false]
    cases outcome with
    | ran =>
      rw [if_pos rfl] at starts
      obtain ⟨after, later, goes', driven⟩ := ih (goes.plain plain) (ran + 1)
      refine ⟨after, history ++ later, goes.trans goes', driven.imp ?_ ?_⟩
      · rintro ⟨driven, vacant⟩
        refine ⟨driven.trans ?_, vacant⟩
        rw [History.started_append, List.length_append, starts, Nat.add_assoc]
      · rintro ⟨driven, count⟩
        refine ⟨driven, ?_⟩
        rw [History.turns_append, turns, count, Nat.add_comm]
        rfl
    | slept =>
      rw [if_neg (by decide)] at starts
      obtain ⟨after, later, goes', driven⟩ := ih (goes.plain plain) ran
      refine ⟨after, history ++ later, goes.trans goes', driven.imp ?_ ?_⟩
      · rintro ⟨driven, vacant⟩
        refine ⟨driven.trans ?_, vacant⟩
        rw [History.started_append, List.length_append, starts, Nat.zero_add]
      · rintro ⟨driven, count⟩
        refine ⟨driven, ?_⟩
        rw [History.turns_append, turns, count, Nat.add_comm]
        rfl
    | idle =>
      have vacant := idle.mp rfl
      have same : next = loop := by
        have none := loop.next_eq_idle_iff.mpr vacant
        rw [Loop.turn, Loop.turnOn, none] at turned
        exact (Prod.mk.inj (Option.some.inj turned)).2.symm
      subst same
      exact ⟨next, [], .here, .inl ⟨rfl, vacant⟩⟩

end Deferred
