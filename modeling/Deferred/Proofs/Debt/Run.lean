import Deferred.Proofs.Debt.Ledger

/-! Running a script that pays what it owes, and making turns of a loop whose books can be kept. Each
step keeps the books, whatever else is queued and whatever the settings of the loop are. -/

namespace Deferred

variable {σ : Type} {setting : Setting} {world : World σ} {held : Multiset Debt} {left : ℕ∞}

/-- A later state of a loop, and its books. Within a job no time goes by unless jobs make turns. -/
def Follows (setting : Setting) (world : World σ) (held : Multiset Debt) (left : ℕ∞) (now : Nat)
    (loop : Loop σ) : Prop :=
  ∃ later, world <+: later ∧ Sound setting later held left loop ∧ now ≤ loop.clock ∧
    (setting.nested ∨ loop.clock = now)

theorem Sound.follows {loop : Loop σ} (sound : Sound setting world held left loop) :
    Follows setting world held left loop.clock loop :=
  ⟨world, List.prefix_refl world, sound, le_refl _, .inr rfl⟩

theorem Follows.trans {later : World σ} {now then' : Nat} {loop : Loop σ}
    (follows : Follows setting later held left then' loop) (extended : world <+: later)
    (before : now ≤ then') (same : setting.nested ∨ then' = now) :
    Follows setting world held left now loop := by
  obtain ⟨last, extended', sound, after, same'⟩ := follows
  refine ⟨last, extended.trans extended', sound, before.trans after, ?_⟩
  rcases same with nested | rfl
  · exact .inl nested
  · exact same'

theorem Follows.forget {now : Nat} {loop : Loop σ}
    (follows : Follows setting world held left now loop) : Follows setting world held ⊤ now loop := by
  obtain ⟨later, extended, sound, after, same⟩ := follows
  exact ⟨later, extended, sound.forget, after, same⟩

structure Host.Keeps (setting : Setting) (host : Host σ) : Prop where
  bound : host.bound = setting.bound
  turn : setting.nested → ∀ {world held left loop outcome loop'},
    Sound setting world held left loop → host.turn loop = some (outcome, loop') →
      Follows setting world held ⊤ loop.clock loop'
  finish : setting.nested → ∀ {world held left loop script loop'},
    Pays setting world 0 loop.clock ⊤ script → Sound setting world held left loop →
      host.finish script loop = some loop' → Follows setting world held ⊤ loop.clock loop'

theorem driveWith_follows {turn : Loop σ → Option (Turn × Loop σ)}
    (keeps : ∀ {world loop outcome loop'}, Sound setting world held ⊤ loop →
      turn loop = some (outcome, loop') → Follows setting world held ⊤ loop.clock loop')
    {halt : Loop σ → Bool} {bound ran count : Nat} {loop loop' : Loop σ}
    (sound : Sound setting world held ⊤ loop)
    (driven : Loop.driveWith turn halt bound ran loop = some (count, loop')) :
    Follows setting world held ⊤ loop.clock loop' := by
  induction bound generalizing world ran loop with
  | zero => exact absurd driven (by simp [Loop.driveWith])
  | succ bound ih =>
    have step : ∀ {outcome next ran}, turn loop = some (outcome, next) →
        Loop.driveWith turn halt bound ran next = some (count, loop') →
          Follows setting world held ⊤ loop.clock loop' := by
      intro outcome next ran turned driven
      obtain ⟨later, extended, sound', before, same⟩ := keeps sound turned
      exact (ih sound' driven).trans extended before same
    simp only [Loop.driveWith] at driven
    split at driven
    next =>
      obtain ⟨_, rfl⟩ := Prod.mk.inj (Option.some.inj driven)
      exact sound.follows
    next =>
      split at driven
      next => exact absurd driven (by simp)
      next turned => exact step turned driven
      next turned => exact step turned driven
      next turned =>
        obtain ⟨_, rfl⟩ := Prod.mk.inj (Option.some.inj driven)
        exact keeps sound turned

theorem Follows.bind {held' : Multiset Debt} {now : Nat} {loop last : Loop σ}
    (follows : Follows setting world held ⊤ now loop)
    (next : ∀ later, world <+: later → now ≤ loop.clock → Sound setting later held ⊤ loop →
      Follows setting later held' ⊤ loop.clock last) : Follows setting world held' ⊤ now last := by
  obtain ⟨later, extended, sound, before, same⟩ := follows
  exact (next later extended before sound).trans extended before same

theorem Follows.resume {held' : Multiset Debt} {now : Nat} {loop last : Loop σ}
    (follows : Follows setting world held ⊤ now loop)
    (resumes : ∀ later, world <+: later → now ≤ loop.clock → Sound setting later held ⊤ loop →
      Follows setting later held' (⊤ + ⊤) loop.clock last) : Follows setting world held' (left + ⊤) now last := by
  rw [add_top]
  exact follows.bind fun later extended before sound => add_top (⊤ : ℕ∞) ▸ resumes later extended before sound

theorem Sound.frame {loop loop' : Loop σ} (sound : Sound setting world held left loop)
    (pool : loop'.pool = loop.pool) (timers : loop'.timers = loop.timers)
    (clock : loop'.clock = loop.clock) (groups : loop'.groups = loop.groups)
    (wakers : ∀ waker rest, loop'.rest? waker = some rest → loop.rest? waker = some rest) :
    Sound setting world held left loop' := by
  obtain ⟨book, pending, ledger⟩ := sound
  have punctual : loop'.Punctual :=
    ⟨timers ▸ ledger.punctual.sorted, timers ▸ clock ▸ ledger.punctual.upcoming⟩
  exact ⟨book, pending, ledger.frame pool punctual clock groups wakers⟩

theorem Sound.clearWaker {loop : Loop σ} (sound : Sound setting world held left loop) (waker : Nat) :
    Sound setting world held left (loop.clearWaker waker) := by
  refine sound.frame rfl rfl rfl rfl fun other rest given => ?_
  simp only [Loop.clearWaker, Loop.rest?, Array.getElem?_setIfInBounds] at given ⊢
  split at given
  next =>
    split at given
    next => exact absurd given (by simp)
    next => exact absurd given (by simp)
  next => exact given

theorem Sound.rest_pays {loop : Loop σ} (sound : Sound setting world held left loop)
    (nested : setting.nested) {waker : Nat} {rest : Unit → Script σ}
    (given : loop.rest? waker = some rest) : Pays setting world 0 loop.clock ⊤ (rest ()) := by
  obtain ⟨book, pending, ledger⟩ := sound
  exact ledger.wakers nested waker rest given world loop.clock (List.prefix_refl world) (le_refl _)

/-- A script that pays what it owes keeps the books, and comes to an end unless jobs make turns. -/
theorem Pays.run {host : Host σ} (keeps : host.Keeps setting) {debts : Multiset Debt} {now : Nat}
    {jobs : ℕ∞} {script : Script σ} (pays : Pays setting world debts now jobs script) :
    ∀ {held left} (loop : Loop σ), loop.clock = now → Sound setting world (debts + held) left loop →
      (¬setting.nested → ∃ loop', script.run host loop = some loop') ∧
        ∀ loop', script.run host loop = some loop' →
          Follows setting world held (left + jobs) now loop' := by
  induction pays with
  | done =>
    intro held left loop clock sound
    refine ⟨fun _ => ⟨loop, rfl⟩, fun loop' ran => ?_⟩
    obtain rfl := Option.some.inj ran
    rw [zero_add] at sound
    rw [add_zero, ← clock]
    exact sound.follows
  | stuck nested => exact fun _ _ _ => ⟨fun simple => absurd nested simple, fun _ ran => by cases ran⟩
  | @waive world debts now jobs script waived spared lenient endless _ ih =>
    intro held left loop clock sound
    obtain ⟨book, pending, ledger⟩ := sound
    rw [add_comm debts, add_assoc] at ledger
    have result := ih loop clock (ledger.waive spared lenient endless)
    rwa [add_assoc, add_comm spared] at result
  | forget nested _ ih =>
    intro held left loop clock sound
    refine ⟨fun simple => absurd nested simple, fun loop' ran => ?_⟩
    rw [add_top]
    exact ((ih loop clock sound).2 loop' ran).forget
  | @submit world debts debts' now jobs jobs' lane job next owing handed _ _ ih =>
    intro held left loop clock sound
    obtain ⟨book, pending, ledger⟩ := sound
    have kept := (loop.submit_clock lane job).trans clock
    have result := ih _ kept (ledger.submit owing (clock ▸ handed))
    rwa [add_assoc] at result
  | now _ ih =>
    intro held left loop clock sound
    simp only [Script.run, clock]
    exact ih loop clock sound
  | record _ ih =>
    exact fun loop clock sound => ih _ clock (sound.frame rfl rfl rfl rfl fun _ _ given => given)
  | review _ ih => exact fun loop clock sound => ih _ loop clock sound
  | @gather world debts now jobs next group protocol fresh patient unhurried valid deadline pays ih =>
    intro held left loop clock sound
    obtain ⟨book, pending, ledger⟩ := sound
    have extended : world <+: world ++ [protocol] := List.prefix_append ..
    have timely : ∀ member ∈ protocol.members, (loop.clock : ℕ∞) ≤ protocol.latest member := by
      intro member inside
      by_cases nested : setting.nested
      · rw [unhurried nested member]
        exact le_top
      · have bound := (pays world (List.prefix_refl world)).le_latest nested ⟨world.length, member⟩
          (Multiset.mem_add.mpr (.inr (Debt.mem_among.mpr inside))) (by simp)
        rwa [World.latest_eq (List.getElem?_concat_length ..), ← clock] at bound
    have gathered := ledger.gather protocol fresh (fun impatient _ => patient impatient) unhurried
      (clock ▸ valid) deadline timely
    obtain ⟨ends, follows⟩ := ih world (List.prefix_refl world) (loop.gather group) clock gathered
    rw [ledger.size] at ends follows
    refine ⟨ends, fun loop' ran => ?_⟩
    have later := (follows loop' ran).trans extended (le_refl _) (.inr rfl)
    rwa [add_assoc, add_comm protocol.jobs] at later
  | look _ ih => exact fun loop clock sound => ih _ loop clock sound
  | @put world debts now jobs number content next allowed _ ih =>
    intro held left loop clock sound
    obtain ⟨book, pending, ledger⟩ := sound
    have known : world[number]? = some .free := allowed.elim (ledger.common number) id
    obtain ⟨left', same, sound⟩ := ledger.regroup content ∅ (debts + held) 0 loop.journal known
      (Finset.empty_subset _) trivial
      (by simp [Protocol.deposit, Protocol.free, Protocol.unawaited, Debt.among])
      (by simp [Protocol.depositJobs, Protocol.free, Protocol.unawaited])
    rw [same, add_zero]
    exact ih _ clock sound
  | @arrive world now debts jobs number member script protocol after rest known timely others changes
      valid settled waits settles ihWaits ihSettles =>
    intro held left loop clock sound
    obtain ⟨book, pending, ledger⟩ := sound
    have awaited : member ∈ pending number :=
      @Ledger.live_of_mem _ _ _ _ _ _ _ _ ledger ⟨number, member⟩ (by simp)
    have expects := clock ▸ ledger.expects known awaited
    have inside : number < loop.groups.size :=
      ledger.size ▸ (List.getElem?_eq_some_iff.mp known).1
    obtain ⟨journal, same⟩ := changes _ _ expects host loop inside rfl
    rw [same]
    rcases ledger.arrive _ journal known awaited (clock ▸ valid _ _ expects) (settled _ _ expects)
      with ⟨unchanged, sound⟩ | ⟨was, is, left', rfl, sound⟩
    · exact ihWaits _ _ expects unchanged _ clock sound
    · have result := ihSettles _ _ expects was is { loop with groups := _, journal } clock sound
      rwa [add_comm jobs, ← add_assoc] at result
  | configure _ ih =>
    exact fun loop clock sound => ih _ clock (sound.frame rfl rfl rfl rfl fun _ _ given => given)
  | inspect _ ih => exact fun loop clock sound => ih _ _ loop clock sound
  | turn nested pays ih =>
    intro held left loop clock sound
    refine ⟨fun simple => absurd nested simple, fun loop' ran => ?_⟩
    simp only [Script.run] at ran
    split at ran
    next => exact absurd ran (by simp)
    next outcome turned made =>
      have follows := clock ▸ keeps.turn nested sound made
      exact follows.resume fun later extended before sound =>
        (ih later _ outcome extended before _ rfl sound).2 loop' ran
  | drain nested pays ih =>
    intro held left loop clock sound
    refine ⟨fun simple => absurd nested simple, fun loop' ran => ?_⟩
    simp only [Script.run] at ran
    split at ran
    next => exact absurd ran (by simp)
    next count driven made =>
      have follows := clock ▸
        driveWith_follows (fun sound turned => keeps.turn nested sound turned) sound.forget made
      exact follows.resume fun later extended before sound =>
        (ih later _ count extended before _ rfl sound).2 loop' ran
  | hold _ ih =>
    intro held left loop clock sound
    refine ih _ _ clock (sound.frame rfl rfl rfl rfl fun waker rest given => ?_)
    simp only [Loop.hold, Loop.rest?, Array.getElem?_push] at given
    split at given
    next => exact absurd given (by simp)
    next => exact given
  | wake nested woken _ _ ih =>
    intro held left loop clock sound
    obtain ⟨book, pending, ledger⟩ := sound
    exact ih _ clock (ledger.wake (clock ▸ woken))
  | @await world debts now waker next nested pays ih =>
    intro held left loop clock sound
    refine ⟨fun simple => absurd nested simple, fun loop' ran => ?_⟩
    simp only [Script.run] at ran
    split at ran
    next => exact absurd ran (by simp)
    next count driven made =>
      have follows := clock ▸
        driveWith_follows (fun sound turned => keeps.turn nested sound turned) sound.forget made
      apply follows.resume
      intro later extended before sound
      split at ran
      next => exact (ih later _ false extended before _ rfl sound).2 loop' ran
      next rest given =>
        split at ran
        next => exact absurd ran (by simp)
        next finished done =>
          have paid : Pays setting later 0 (driven.clearWaker waker).clock ⊤ (rest ()) :=
            sound.rest_pays nested given
          have finishes := keeps.finish nested paid (sound.clearWaker waker) done
          exact finishes.resume fun last extended' after sound =>
            (ih last _ true (extended.trans extended') (before.trans after) _ rfl sound).2 loop' ran
  | budget _ ih =>
    intro held left loop clock sound
    simp only [Script.run, keeps.bound]
    exact ih loop clock sound

inductive Turned (setting : Setting) (world : World σ) (held : Multiset Debt) (left : ℕ∞)
    (loop : Loop σ) : Turn → Loop σ → Prop where
  | ran {left' loop'} (fewer : left = left' + 1)
      (follows : Follows setting world held left' loop.clock loop') :
      Turned setting world held left loop .ran loop'
  /-- The first task is due after the sleep, and none was before it. -/
  | slept {now} (ahead : ∀ task ∈ loop.pool, loop.clock < task.due)
      (due : ∃ task ∈ { loop with clock := now }.pool, task.due = now) (before : loop.clock ≤ now)
      (sound : Sound setting world held left { loop with clock := now }) :
      Turned setting world held left loop .slept { loop with clock := now }
  | idle (empty : loop.pool = 0) : Turned setting world held left loop .idle loop

/-- Every turn keeps the books, and each job that is run is one of those that were expected. -/
theorem Host.Keeps.turned {host : Host σ} (keeps : host.Keeps setting) {loop : Loop σ}
    (sound : Sound setting world held left loop) (idle : ¬setting.nested → held = 0) :
    (¬setting.nested → ∃ result, loop.turnOn host = some result) ∧
      ∀ outcome loop', loop.turnOn host = some (outcome, loop') →
        Turned setting world held left loop outcome loop' := by
  obtain ⟨book, pending, ledger⟩ := sound
  have finds := Loop.finds_next ledger.punctual
  unfold Loop.turnOn
  generalize loop.next = duty at finds ⊢
  cases finds with
  | @run job ready low timers journal pool punctual =>
    obtain ⟨debts, jobs, left', rfl, _, pays, started⟩ :=
      ledger.begin ((loop.clock, .started job.ticket job.route) :: journal) pool punctual
    obtain ⟨ends, follows⟩ := pays.run keeps
      (Loop.start { loop with ready, low, timers, journal } job) rfl started
    refine ⟨fun simple => ?_, fun outcome loop' turned => ?_⟩
    · obtain ⟨loop', ran⟩ := ends simple
      exact ⟨(.ran, loop'), by simp only [ran, Option.map_some]⟩
    · obtain ⟨ended, ran, same⟩ := Option.map_eq_some_iff.mp turned
      obtain ⟨rfl, rfl⟩ := Prod.mk.inj same
      exact .ran (add_assoc left' jobs 1).symm (follows _ ran)
  | sleep ahead earliest first pool punctual =>
    refine ⟨fun _ => ⟨_, rfl⟩, fun outcome loop' turned => ?_⟩
    obtain ⟨rfl, rfl⟩ := Prod.mk.inj (Option.some.inj turned)
    obtain ⟨task, member, due⟩ := earliest
    exact .slept (fun task member => Nat.lt_of_lt_of_le ahead (first task member))
      ⟨task, pool.symm ▸ member, due⟩ (Nat.le_of_lt ahead)
      (ledger.advance idle (Nat.le_of_lt ahead) first pool punctual)
  | idle empty =>
    refine ⟨fun _ => ⟨_, rfl⟩, fun outcome loop' turned => ?_⟩
    obtain ⟨rfl, rfl⟩ := Prod.mk.inj (Option.some.inj turned)
    exact .idle empty

theorem Turned.follows {loop loop' : Loop σ} {outcome : Turn} (nested : setting.nested)
    (turned : Turned setting world held left loop outcome loop')
    (sound : Sound setting world held left loop) :
    Follows setting world held ⊤ loop.clock loop' := by
  cases turned with
  | ran _ follows => exact follows.forget
  | slept _ _ before sound => exact ⟨world, List.prefix_refl world, sound.forget, before, .inl nested⟩
  | idle => exact sound.forget.follows

theorem keeps_hostAt (setting : Setting) (depth : Nat) :
    (Loop.hostAt setting.bound depth : Host σ).Keeps setting := by
  induction depth with
  | zero =>
    refine ⟨rfl, ?_, ?_⟩
    · intro _ world held left loop outcome loop' _ turned
      exact absurd turned (by simp [Loop.hostAt])
    · intro _ world held left loop script loop' _ _ done
      exact absurd done (by simp [Loop.hostAt])
  | succ depth ih =>
    refine ⟨rfl, ?_, ?_⟩
    · intro nested world held left loop outcome loop' sound turned
      have idle : ¬setting.nested → held = 0 := fun simple => absurd nested simple
      exact ((ih.turned sound idle).2 outcome loop' turned).follows nested sound
    · intro nested world held left loop script loop' pays sound done
      rw [← zero_add held] at sound
      have follows := (pays.run ih loop rfl sound).2 loop' done
      rwa [add_top] at follows

theorem driveWith_ends {halt : Loop σ → Bool} {bound fuel ran count : Nat} {loop after : Loop σ}
    (driven : Loop.driveWith (Loop.turn bound) halt fuel ran loop = some (count, after)) :
    halt after = true ∨ after.next = .idle := by
  induction fuel generalizing ran loop with
  | zero => exact absurd driven (by simp [Loop.driveWith])
  | succ fuel ih =>
    simp only [Loop.driveWith] at driven
    split at driven
    next halted =>
      obtain ⟨_, rfl⟩ := Prod.mk.inj (Option.some.inj driven)
      exact .inl halted
    next =>
      split at driven
      next => exact absurd driven (by simp)
      next => exact ih driven
      next => exact ih driven
      next turned =>
        obtain ⟨_, rfl⟩ := Prod.mk.inj (Option.some.inj driven)
        refine .inr ?_
        simp only [Loop.turn, Loop.turnOn] at turned
        split at turned
        next => simp at turned
        next => simp at turned
        next idle =>
          simp only [Option.some.injEq, Prod.mk.injEq, true_and] at turned
          rwa [← turned]

end Deferred
