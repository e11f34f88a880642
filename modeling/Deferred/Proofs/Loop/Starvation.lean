import Deferred.Proofs.Loop.Conservation
import Mathlib.Data.List.TakeWhile

/-! How long ready jobs can keep the others waiting. Every job that gets its turn from the high-priority
queue may schedule another one, so the queue need not get shorter. But each job in it pays for as many turns
as there are between two periodic yields, and what is left of that goes down in every turn: either the queue
gets shorter, or the count goes up, or the yield takes a job out of the queue. -/

namespace Deferred

variable {σ : Type}

namespace Loop

/-- The number of turns that the periodic yield grants to the jobs of the high-priority queue. It is
negative only if none is there. -/
def credit (loop : Loop σ) : Int :=
  loop.ready.length * (loop.config.maxStreak + 2) - loop.streak

/-- The count is at most one above the limit, and the timers are in the order of their deadlines. Only a lower
limit that is set from outside can break the first. -/
structure Regular (loop : Loop σ) : Prop where
  counted : loop.streak ≤ loop.config.maxStreak + 1
  sorted : loop.timers.Pairwise fun first second => first.deadline ≤ second.deadline

def dueJobs (loop : Loop σ) : List (Job σ) :=
  (loop.timers.filter (Timer.isDue loop.clock)).map Timer.job

/-- What a loop becomes by turns that run these jobs, between which it may sleep. -/
inductive Serves (bound : Nat) : Loop σ → List (Job σ) → Loop σ → Prop
  | here {loop} : Serves bound loop [] loop
  | ran {loop middle after popped job jobs} (found : loop.next = .run job popped)
      (turned : loop.turn bound = some (.ran, middle)) (rest : Serves bound middle jobs after) :
      Serves bound loop (job :: jobs) after
  | slept {loop middle after jobs} (turned : loop.turn bound = some (.slept, middle))
      (rest : Serves bound middle jobs after) : Serves bound loop jobs after

end Loop

/-- A running job schedules no more jobs than its quota and defers none. It may submit any number of them to
the low-priority queue and to the timers, and may ask for anything else but turns and another limit. -/
inductive Script.Modest (bound : Nat) : Nat → Script σ → Loop σ → Prop
  | done {quota loop} : Modest bound quota .done loop
  | schedule {quota loop job next} (modest : Modest bound quota next (loop.submit .scheduled job)) :
      Modest bound (quota + 1) (.submit .scheduled job next) loop
  | yield {quota loop job next} (modest : Modest bound quota next (loop.submit .yielded job)) :
      Modest bound quota (.submit .yielded job next) loop
  | after {quota loop delay job next}
      (modest : Modest bound quota next (loop.submit (.after delay) job)) :
      Modest bound quota (.submit (.after delay) job next) loop
  | work {quota loop loop' script next} (stepped : script.effect? bound loop = some (next, loop'))
      (limit : loop'.config = loop.config) (modest : Modest bound quota next loop') :
      Modest bound quota script loop

namespace Loop

/-- Whatever job gets its turn from now on, it schedules at most one other. -/
def Restrained (bound : Nat) (loop : Loop σ) : Prop :=
  ∀ jobs reached, Serves bound loop jobs reached → ∀ job popped, reached.next = .run job popped →
    (job.script ()).Modest bound 1 (popped.start job)

structure Spends (quota : Nat) (loop after : Loop σ) : Prop where
  limit : after.config = loop.config
  clock : after.clock = loop.clock
  regular : after.Regular
  credit : after.credit ≤ loop.credit + quota * (loop.config.maxStreak + 1)
  ready : loop.ready.toList <+: after.ready.toList

theorem Regular.spends {loop : Loop σ} (regular : loop.Regular) (quota : Nat) : loop.Spends quota loop where
  limit := rfl
  clock := rfl
  regular := regular
  credit := by
    have := Int.mul_nonneg (Int.natCast_nonneg quota) (Int.natCast_nonneg (loop.config.maxStreak + 1))
    push_cast at this
    omega
  ready := List.prefix_refl _

theorem Spends.trans {first second : Nat} {loop middle after : Loop σ} (spends : loop.Spends first middle)
    (spends' : middle.Spends second after) : loop.Spends (first + second) after where
  limit := spends'.limit.trans spends.limit
  clock := spends'.clock.trans spends.clock
  regular := spends'.regular
  credit := by
    have := spends.credit
    have := spends'.credit
    rw [spends.limit] at this
    push_cast
    rw [Int.add_mul]
    omega
  ready := spends.ready.trans spends'.ready

theorem Spends.of_free {quota : Nat} {loop middle after : Loop σ} (free : loop.Spends 0 middle)
    (spends : middle.Spends quota after) : loop.Spends quota after :=
  Nat.zero_add quota ▸ free.trans spends

theorem Spends.line {quota : Nat} {loop after : Loop σ} (spends : loop.Spends quota after)
    {line more : List (Job σ)} (ready : loop.ready.toList = line ++ more) :
    line <+: after.ready.toList ++ after.fallingDue :=
  ((ready ▸ List.prefix_append line more).trans spends.ready).trans (List.prefix_append ..)

/-- To schedule a job costs what lies between two periodic yields. It is paid for by the count, if the job
goes to the high-priority queue, and otherwise by the reset of the count. -/
theorem Regular.spends_schedule {loop : Loop σ} (regular : loop.Regular) (script : Unit → Script σ) :
    loop.Spends 1 (loop.submit .scheduled script) := by
  have counted := regular.counted
  simp only [submit, schedule]
  split
  next diverted =>
    refine ⟨rfl, rfl, ⟨Nat.zero_le _, regular.sorted⟩, ?_, List.prefix_refl _⟩
    simp only [Loop.credit, record]
    omega
  next counts =>
    have length : (loop.ready.push (loop.issue .scheduled script)).length = loop.ready.length + 1 := by
      rw [← Queue.length_toList, Queue.toList_push, List.length_append, Queue.length_toList]
      rfl
    refine ⟨rfl, rfl, ⟨by simpa using counts, regular.sorted⟩, ?_, ?_⟩
    · simp only [Loop.credit, length]
      push_cast
      rw [Int.add_mul]
      omega
    · rw [Queue.toList_push]
      exact List.prefix_append ..

theorem Regular.spends_yield {loop : Loop σ} (regular : loop.Regular) (script : Unit → Script σ) :
    loop.Spends 0 (loop.submit .yielded script) :=
  ⟨rfl, rfl, ⟨regular.counted, regular.sorted⟩, by simp [Loop.credit, submit, submitLow], List.prefix_refl _⟩

theorem Regular.spends_after {loop : Loop σ} (regular : loop.Regular) (delay : Nat)
    (script : Unit → Script σ) : loop.Spends 0 (loop.submit (.after delay) script) where
  limit := rfl
  clock := rfl
  regular := ⟨regular.counted, insertTimer_sorted _ regular.sorted⟩
  credit := by simp [Loop.credit, submit, setTimer, record]
  ready := List.prefix_refl _

theorem Regular.spends_effect {bound : Nat} {loop loop' : Loop σ} {script next : Script σ}
    (regular : loop.Regular) (stepped : script.effect? bound loop = some (next, loop'))
    (limit : loop'.config = loop.config) : loop.Spends 0 loop' := by
  obtain ⟨config, _, _, _, rfl⟩ := Script.effect?_eq stepped
  obtain rfl : config = loop.config := limit
  exact ⟨rfl, rfl, ⟨regular.counted, regular.sorted⟩, by simp [Loop.credit], List.prefix_refl _⟩

end Loop

open Loop

theorem Script.Modest.spends {host : Host σ} {quota : Nat} {script : Script σ} {loop : Loop σ}
    (modest : script.Modest host.bound quota loop) (regular : loop.Regular) :
    ∃ after, script.run host loop = some after ∧ loop.Spends quota after := by
  induction modest with
  | done => exact ⟨_, rfl, regular.spends _⟩
  | @schedule quota _ job _ _ ih =>
    have first := regular.spends_schedule job
    obtain ⟨after, ran, rest⟩ := ih first.regular
    exact ⟨after, ran, Nat.add_comm 1 quota ▸ first.trans rest⟩
  | @yield _ _ job _ _ ih =>
    have first := regular.spends_yield job
    obtain ⟨after, ran, rest⟩ := ih first.regular
    exact ⟨after, ran, first.of_free rest⟩
  | @after _ _ delay job _ _ ih =>
    have first := regular.spends_after delay job
    obtain ⟨after, ran, rest⟩ := ih first.regular
    exact ⟨after, ran, first.of_free rest⟩
  | work stepped limit _ ih =>
    have first := regular.spends_effect stepped limit
    obtain ⟨after, ran, rest⟩ := ih first.regular
    exact ⟨after, (run_of_effect? stepped).trans ran, first.of_free rest⟩

namespace Loop

variable {bound : Nat}

theorem Regular.later {loop : Loop σ} (regular : loop.Regular) :
    ∀ timer ∈ loop.timers.dropWhile (Timer.isDue loop.clock), loop.clock < timer.deadline := by
  have sorted := regular.sorted
  revert sorted
  induction loop.timers with
  | nil => simp
  | cons timer rest ih =>
    intro sorted other member
    rw [List.pairwise_cons] at sorted
    by_cases due : timer.isDue loop.clock = true
    case pos =>
      rw [List.dropWhile_cons_of_pos due] at member
      exact ih sorted.2 other member
    case neg =>
      rw [List.dropWhile_cons_of_neg due] at member
      simp only [Timer.isDue, decide_eq_true_eq] at due
      rcases List.mem_cons.mp member with rfl | behind
      · omega
      · have := sorted.1 other behind
        omega

theorem Regular.dueJobs_eq {loop : Loop σ} (regular : loop.Regular) :
    loop.dueJobs = (loop.timers.takeWhile (Timer.isDue loop.clock)).map Timer.job := by
  have first : (loop.timers.takeWhile (Timer.isDue loop.clock)).filter (Timer.isDue loop.clock) =
      loop.timers.takeWhile (Timer.isDue loop.clock) :=
    List.filter_eq_self.mpr fun _ => List.mem_takeWhile_imp
  have others : (loop.timers.dropWhile (Timer.isDue loop.clock)).filter (Timer.isDue loop.clock) = [] := by
    refine List.filter_eq_nil_iff.mpr fun timer member => ?_
    simpa [Timer.isDue] using regular.later timer member
  conv_lhs => rw [dueJobs, ← @List.takeWhile_append_dropWhile _ (Timer.isDue loop.clock) loop.timers]
  rw [List.filter_append, first, others, List.append_nil]

theorem Regular.fallingDue_eq {loop : Loop σ} (regular : loop.Regular)
    (unready : loop.ready.toList = []) : loop.fallingDue = loop.dueJobs := by
  rw [regular.dueJobs_eq, fallingDue, if_pos unready]

theorem next_of_first {loop : Loop σ} {job : Job σ} {rest : List (Job σ)}
    (first : loop.ready.toList ++ loop.fallingDue = job :: rest) :
    ∃ ready timers journal, ready.toList = rest ∧ timers <:+ loop.timers ∧
      loop.next = .run job { loop with ready, timers, journal } := by
  have decides := loop.decides_next
  generalize loop.next = duty at decides
  cases decides with
  | ready taken _ suffix =>
    obtain ⟨rfl, same⟩ := List.cons.inj (taken.symm.trans first)
    exact ⟨_, _, _, same, suffix, rfl⟩
  | low unready _ ahead _ => simp [unready, fallingDue_of_ahead ahead] at first
  | sleep unready _ timers ahead =>
    have notDue : loop.fallingDue = [] := fallingDue_of_ahead (by simpa [timers] using ahead)
    simp [unready, notDue] at first
  | idle vacant => simp [vacant.ready, vacant.timers, fallingDue] at first

theorem Regular.popped {loop popped : Loop σ} {job : Job σ} (regular : loop.Regular)
    (found : loop.next = .run job popped) : popped.Regular := by
  have decides := loop.decides_next
  rw [found] at decides
  cases decides with
  | ready _ _ suffix => exact ⟨regular.counted, regular.sorted.sublist suffix.sublist⟩
  | low _ _ _ _ => exact ⟨regular.counted, regular.sorted⟩

theorem turn_eq_slept {loop middle : Loop σ} (turned : loop.turn bound = some (.slept, middle)) :
    ∃ deadline, loop.next = .sleep deadline ∧ middle = { loop with clock := deadline } := by
  unfold turn turnOn at turned
  split at turned
  next => simp at turned
  next deadline found =>
    obtain ⟨-, rfl⟩ := Prod.mk.inj (Option.some.inj turned)
    exact ⟨deadline, found, rfl⟩
  next => simp at turned

theorem Serves.trans {loop middle after : Loop σ} {jobs jobs' : List (Job σ)}
    (reaches : Serves bound loop jobs middle) (reaches' : Serves bound middle jobs' after) :
    Serves bound loop (jobs ++ jobs') after := by
  induction reaches with
  | here => exact reaches'
  | ran found turned _ ih => exact .ran found turned (ih reaches')
  | slept turned _ ih => exact .slept turned (ih reaches')

theorem Restrained.reached {loop reached : Loop σ} {jobs : List (Job σ)}
    (restrained : loop.Restrained bound) (reaches : Serves bound loop jobs reached) :
    reached.Restrained bound :=
  fun _ _ reaches' => restrained _ _ (reaches.trans reaches')

theorem restrained_of_idle {loop : Loop σ} (idle : loop.next = .idle) : loop.Restrained bound := by
  intro jobs reached reaches job popped found
  cases reaches with
  | here => cases idle.symm.trans found
  | ran found' _ _ => cases idle.symm.trans found'
  | slept turned _ =>
    obtain ⟨_, asleep, _⟩ := turn_eq_slept turned
    cases idle.symm.trans asleep

theorem restrained_of_run {loop middle popped : Loop σ} {job : Job σ} (found : loop.next = .run job popped)
    (turned : loop.turn bound = some (.ran, middle))
    (modest : (job.script ()).Modest bound 1 (popped.start job)) (restrained : middle.Restrained bound) :
    loop.Restrained bound := by
  intro jobs reached reaches job' popped' found'
  cases reaches with
  | here =>
    obtain ⟨rfl, rfl⟩ := Duty.run.inj (found.symm.trans found')
    exact modest
  | ran found'' turned' rest =>
    obtain ⟨-, rfl⟩ := Prod.mk.inj (Option.some.inj (turned.symm.trans turned'))
    exact restrained _ _ rest job' popped' found'
  | slept turned' _ =>
    obtain ⟨_, asleep, _⟩ := turn_eq_slept turned'
    cases found.symm.trans asleep

theorem Restrained.turn {loop popped : Loop σ} {job : Job σ} (restrained : loop.Restrained bound)
    (regular : loop.Regular) (found : loop.next = .run job popped) :
    ∃ after, loop.turn bound = some (.ran, after) ∧ popped.Spends 1 after := by
  have modest := restrained _ _ .here job popped found
  rw [← hostAt_bound (σ := σ) bound bound] at modest
  have starts := regular.popped found
  obtain ⟨after, ran, spends⟩ := modest.spends ⟨starts.counted, starts.sorted⟩
  refine ⟨after, ?_, ⟨spends.limit, spends.clock, spends.regular, spends.credit, spends.ready⟩⟩
  simp only [Loop.turn, turnOn, found, ran, Option.map_some]

theorem Restrained.regular {loop reached : Loop σ} {jobs : List (Job σ)}
    (restrained : loop.Restrained bound) (regular : loop.Regular)
    (reaches : Serves bound loop jobs reached) : reached.Regular := by
  induction reaches with
  | here => exact regular
  | @ran loop middle after popped job jobs found turned rest ih =>
    apply ih (restrained.reached (.ran found turned .here))
    obtain ⟨after, turned', spends⟩ := restrained.turn regular found
    obtain ⟨-, rfl⟩ := Prod.mk.inj (Option.some.inj (turned.symm.trans turned'))
    exact spends.regular
  | slept turned rest ih =>
    apply ih (restrained.reached (.slept turned .here))
    obtain ⟨_, _, rfl⟩ := turn_eq_slept turned
    exact ⟨regular.counted, regular.sorted⟩

theorem Regular.credit_pos {loop : Loop σ} (regular : loop.Regular) (ready : loop.ready.toList ≠ []) :
    0 < loop.credit := by
  have counted := regular.counted
  have some : 1 ≤ loop.ready.length := by
    rw [← Queue.length_toList]
    exact List.length_pos_iff.mpr ready
  have := Int.mul_le_mul_of_nonneg_right (Int.ofNat_le.mpr some)
    (Int.natCast_nonneg (loop.config.maxStreak + 2))
  push_cast at this
  unfold credit
  omega

/-- Every turn that starts with a ready job uses up some of the credit: the job takes its share with it, and
what it schedules costs one turn less than that. -/
theorem Restrained.pays {loop : Loop σ} (restrained : loop.Restrained bound) (regular : loop.Regular)
    {job : Job σ} {rest : List (Job σ)} (ready : loop.ready.toList = job :: rest) :
    ∃ popped after, loop.next = .run job popped ∧ loop.turn bound = some (.ran, after) ∧
      after.credit < loop.credit ∧ after.clock = loop.clock := by
  have notDue : loop.fallingDue = [] := if_neg (by simp [ready])
  have first : loop.ready.toList ++ loop.fallingDue = job :: rest := by rw [notDue, ready, List.append_nil]
  obtain ⟨queue, timers, journal, members, -, found⟩ := next_of_first first
  obtain ⟨after, turned, spends⟩ := restrained.turn regular found
  refine ⟨_, after, found, turned, ?_, spends.clock⟩
  have length : loop.ready.length = queue.length + 1 := by
    rw [← Queue.length_toList, ← Queue.length_toList, ready, members, List.length_cons]
  have := spends.credit
  simp only [credit, length] at this ⊢
  push_cast at this ⊢
  rw [Int.add_mul]
  omega

theorem Restrained.empties {loop : Loop σ} (restrained : loop.Restrained bound) (regular : loop.Regular) :
    ∃ jobs after, Serves bound loop jobs after ∧ jobs.length ≤ loop.credit.toNat ∧
      after.ready.toList = [] ∧ after.clock = loop.clock ∧
      ∀ fuel ran, loop.credit.toNat < fuel →
        driveWith (Loop.turn bound) (fun loop => loop.ready.length == 0) fuel ran loop =
          some (ran + jobs.length, after) := by
  generalize turns : loop.credit.toNat = credit
  induction credit using Nat.strong_induction_on generalizing loop with
  | _ credit ih =>
    cases ready : loop.ready.toList with
    | nil =>
      refine ⟨[], loop, .here, Nat.zero_le _, ready, rfl, fun fuel ran enough => ?_⟩
      obtain ⟨fuel, rfl⟩ : ∃ less, fuel = less + 1 := ⟨fuel - 1, by omega⟩
      have empty : loop.ready.length = 0 := by rw [← Queue.length_toList, ready, List.length_nil]
      simp [driveWith, empty]
    | cons job rest =>
      obtain ⟨popped, middle, found, turned, less, now⟩ := restrained.pays regular ready
      have first : Serves bound loop [job] middle := .ran found turned .here
      have left := regular.credit_pos (by simp [ready])
      obtain ⟨jobs, after, reaches, count, empty, later, driven⟩ := ih middle.credit.toNat (by omega)
        (restrained.reached first) (restrained.regular regular first) rfl
      refine ⟨job :: jobs, after, .ran found turned reaches, ?_, empty, later.trans now, ?_⟩
      · rw [List.length_cons]
        omega
      · intro fuel ran enough
        obtain ⟨fuel, rfl⟩ : ∃ less, fuel = less + 1 := ⟨fuel - 1, by omega⟩
        have waits : loop.ready.length ≠ 0 := by rw [← Queue.length_toList, ready]; simp
        simp only [driveWith, beq_iff_eq, waits, if_false, turned]
        rw [driven fuel (ran + 1) (by omega), List.length_cons, Nat.add_assoc, Nat.add_comm 1]

/-- Jobs at the front of the line are run first and in their order, at once and whatever they do. -/
theorem Restrained.serves {loop : Loop σ} (restrained : loop.Restrained bound) (regular : loop.Regular)
    {line : List (Job σ)} (front : line <+: loop.ready.toList ++ loop.fallingDue) :
    ∃ after, Serves bound loop line after ∧ after.clock = loop.clock := by
  induction line generalizing loop with
  | nil => exact ⟨loop, .here, rfl⟩
  | cons job line ih =>
    obtain ⟨more, first⟩ := front
    obtain ⟨queue, timers, journal, members, -, found⟩ := next_of_first first.symm
    obtain ⟨middle, turned, spends⟩ := restrained.turn regular found
    have reaches : Serves bound loop [job] middle := .ran found turned .here
    obtain ⟨after, served, now⟩ := ih (restrained.reached reaches) (restrained.regular regular reaches)
      (spends.line members)
    exact ⟨after, .ran found turned served, now.trans spends.clock⟩

theorem Restrained.serves_first {loop reached : Loop σ} {jobs : List (Job σ)}
    (restrained : loop.Restrained bound) (regular : loop.Regular)
    (reaches : Serves bound loop jobs reached) {line : List (Job σ)}
    (front : line <+: loop.ready.toList ++ loop.fallingDue) : jobs <+: line ∨ line <+: jobs := by
  induction reaches generalizing line with
  | here => exact .inl (List.nil_prefix ..)
  | @ran loop middle after popped job jobs found turned rest ih =>
    cases line with
    | nil => exact .inr (List.nil_prefix ..)
    | cons expected line =>
      obtain ⟨more, first⟩ := front
      obtain ⟨queue, timers, journal, members, -, found'⟩ := next_of_first first.symm
      obtain ⟨rfl, rfl⟩ := Duty.run.inj (found.symm.trans found')
      obtain ⟨middle', turned', spends⟩ := restrained.turn regular found
      obtain ⟨-, rfl⟩ := Prod.mk.inj (Option.some.inj (turned.symm.trans turned'))
      have behind := ih (restrained.reached (.ran found turned .here)) spends.regular (spends.line members)
      exact behind.imp (List.prefix_cons_inj job).mpr (List.prefix_cons_inj job).mpr
  | @slept loop middle after jobs turned _ _ =>
    obtain ⟨deadline, found, rfl⟩ := turn_eq_slept turned
    cases line with
    | nil => exact .inr (List.nil_prefix ..)
    | cons expected line =>
      obtain ⟨more, first⟩ := front
      obtain ⟨_, _, _, _, _, found'⟩ := next_of_first first.symm
      rw [found] at found'
      cases found'

/-- Once the high-priority queue is empty, a turn that runs a job leaves no timer behind that is due. -/
theorem Regular.next_moves_due {loop popped : Loop σ} {job : Job σ} (regular : loop.Regular)
    (unready : loop.ready.toList = []) (found : loop.next = .run job popped) :
    ∀ timer ∈ popped.timers, loop.clock < timer.deadline := by
  have decides := loop.decides_next
  rw [found] at decides
  cases decides with
  | @ready _ ready timers journal _ due suffix =>
    have left : timers = loop.timers.dropWhile (Timer.isDue loop.clock) := by
      have whole := timers_eq_of_due due suffix
      rw [fires, if_pos unready] at whole
      refine List.append_cancel_left (whole.symm.trans ?_)
      exact List.takeWhile_append_dropWhile.symm
    exact left ▸ regular.later
  | low _ _ ahead _ =>
    intro timer pending
    cases timers : loop.timers with
    | nil => simp [timers] at pending
    | cons first rest =>
      have := ahead first (by simp [timers])
      have sorted := regular.sorted
      rw [timers] at sorted pending
      rcases List.mem_cons.mp pending with rfl | behind
      · exact this
      · exact this.trans_le (List.rel_of_pairwise_cons sorted behind)

/-- The periodic yield bounds starvation. Where no job schedules more than one other, every turn that starts
with a ready job runs it and uses up some of a credit that is positive as long as a job is ready. So the
high-priority queue gets empty within the credit; whenever it is empty, the jobs of all timers that are due
are moved by the next turn and run, at that very time and before anything else is. -/
theorem Restrained.bounds_starvation {loop : Loop σ} (restrained : loop.Restrained bound)
    (regular : loop.Regular) :
    (∀ jobs reached, Serves bound loop jobs reached → reached.ready.toList ≠ [] →
      0 < reached.credit ∧
        ∃ after, reached.turn bound = some (.ran, after) ∧ after.credit ≤ reached.credit - 1) ∧
    (∃ jobs after, Serves bound loop jobs after ∧ jobs.length ≤ loop.credit.toNat ∧
      after.ready.toList = [] ∧ after.clock = loop.clock ∧
      ∀ fuel, loop.credit.toNat < fuel →
        driveWith (Loop.turn bound) (fun loop => loop.ready.length == 0) fuel 0 loop =
          some (jobs.length, after)) ∧
    ∀ jobs emptied, Serves bound loop jobs emptied → emptied.ready.toList = [] →
      (∀ job popped, emptied.next = .run job popped →
        ∀ timer ∈ popped.timers, emptied.clock < timer.deadline) ∧
      (∃ later, Serves bound emptied emptied.dueJobs later ∧ later.clock = emptied.clock) ∧
      ∀ jobs' reached, Serves bound emptied jobs' reached →
        jobs' <+: emptied.dueJobs ∨ emptied.dueJobs <+: jobs' := by
  refine ⟨fun jobs reached reaches ready => ?_, ?_, fun jobs emptied reaches unready => ?_⟩
  · have regular := restrained.regular regular reaches
    obtain ⟨job, rest, first⟩ := List.exists_cons_of_ne_nil ready
    obtain ⟨_, after, -, turned, less, -⟩ := (restrained.reached reaches).pays regular first
    exact ⟨regular.credit_pos ready, after, turned, Int.le_sub_one_of_lt less⟩
  · obtain ⟨jobs, after, reaches, count, empty, now, driven⟩ := restrained.empties regular
    refine ⟨jobs, after, reaches, count, empty, now, fun fuel enough => ?_⟩
    rw [driven fuel 0 enough, Nat.zero_add]
  · have regular := restrained.regular regular reaches
    have restrained := restrained.reached reaches
    have front : emptied.dueJobs <+: emptied.ready.toList ++ emptied.fallingDue := by
      exact (regular.fallingDue_eq unready).symm ▸ unready ▸ List.prefix_refl _
    exact ⟨fun job popped => regular.next_moves_due unready, restrained.serves regular front,
      fun jobs' reached reaches' => restrained.serves_first regular reaches' front⟩

def crowded : Loop Unit :=
  (((({ config := ⟨0⟩ } : Loop Unit).submit .scheduled fun _ => .submit .scheduled (fun _ => .done) .done).submit
    .yielded fun _ => .done).submit (.after 0) fun _ => .done)

theorem crowded_restrained : crowded.Restrained 9 :=
  restrained_of_run rfl rfl (.schedule .done) <| restrained_of_run rfl rfl .done <|
    restrained_of_run rfl rfl .done <| restrained_of_run rfl rfl .done <| restrained_of_idle rfl

theorem bounds_starvation_crowded : crowded.Regular ∧ crowded.Restrained 9 ∧ crowded.credit = 1 ∧
    (∃ after, crowded.turn 9 = some (.ran, after) ∧ after.credit ≤ 0) ∧
    ∃ after, driveWith (Loop.turn 9) (fun loop => loop.ready.length == 0) 2 0 crowded = some (1, after) ∧
      after.low.toList.map Job.route = [.yielded, .diverted] ∧
      after.dueJobs.map Job.route = [.timed 0 0] ∧
      ∃ later, Serves 9 after after.dueJobs later ∧ later.clock = 0 := by
  have regular : crowded.Regular := ⟨by decide, List.pairwise_singleton ..⟩
  obtain ⟨pays, ⟨jobs, after, reaches, count, empty, -, driven⟩, serves⟩ :=
    crowded_restrained.bounds_starvation regular
  obtain ⟨-, next, turned, less⟩ := pays [] crowded .here (List.cons_ne_nil _ _)
  refine ⟨regular, crowded_restrained, rfl, ⟨next, turned, less⟩, after, ?_⟩
  obtain ⟨-, rfl⟩ := Prod.mk.inj (Option.some.inj ((driven 2 (by decide)).symm.trans rfl))
  obtain ⟨-, ⟨later, served, now⟩, -⟩ := serves jobs _ reaches empty
  exact ⟨rfl, rfl, rfl, later, served, now⟩

end Loop

end Deferred
