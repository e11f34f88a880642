import Deferred.Proofs.Loop.Pool

/-! What a job can reach. Jobs of different futures share no memory: a job writes only to the groups that
it was given and to those that it makes. Nothing else is asked of the jobs that share a loop with a
future. -/

namespace Deferred

variable {σ : Type}

inductive Script.Confined : (turns : Prop) → (own : Nat → Prop) → Script σ → Prop
  | done {turns own} : Confined turns own .done
  | stuck {turns own} : Confined turns own .stuck
  | submit {turns own lane job next} (confinedJob : Confined True own (job ()))
      (confined : Confined turns own next) : Confined turns own (.submit lane job next)
  | now {turns own next} (confined : ∀ time, Confined turns own (next time)) :
      Confined turns own (.now next)
  | record {turns own event next} (confined : Confined turns own next) :
      Confined turns own (.record event next)
  | review {turns own next} (confined : ∀ journal, Confined turns own (next journal)) :
      Confined turns own (.review next)
  | gather {turns own content next}
      (confined : ∀ number, Confined turns (fun other => own other ∨ other = number) (next number)) :
      Confined turns own (.gather content next)
  | look {turns own number next} (confined : ∀ content, Confined turns own (next content)) :
      Confined turns own (.look number next)
  | put {turns own number content next} (owned : own number) (confined : Confined turns own next) :
      Confined turns own (.put number content next)
  | configure {turns own config next} (confined : Confined turns own next) :
      Confined turns own (.configure config next)
  | inspect {turns own next} (confined : ∀ stats config, Confined turns own (next stats config)) :
      Confined turns own (.inspect next)
  | turn {turns own next} (allowed : turns) (confined : ∀ turn, Confined turns own (next turn)) :
      Confined turns own (.turn next)
  | drain {turns own next} (allowed : turns) (confined : ∀ count, Confined turns own (next count)) :
      Confined turns own (.drain next)
  | hold {turns own next} (confined : ∀ waker, Confined turns own (next waker)) :
      Confined turns own (.hold next)
  | wake {turns own waker rest next} (confinedRest : Confined True own (rest ()))
      (confined : Confined turns own next) : Confined turns own (.wake waker rest next)
  | await {turns own waker next} (allowed : turns) (confined : ∀ woken, Confined turns own (next woken)) :
      Confined turns own (.await waker next)
  | budget {turns own next} (confined : ∀ bound, Confined turns own (next bound)) :
      Confined turns own (.budget next)

/-- A script that goes on exactly once with `next`, with one of the `possible` outcomes, itself or through
a job that it submits. It does so itself only in a later turn than the one it was started in, and until
then makes no turns. -/
inductive Script.Hands {ε α : Type} (next : Except ε α → Script σ) (possible : Except ε α → Prop) :
    (later : Prop) → (own : Nat → Prop) → Script σ → Prop
  | call {later own outcome rest} (turned : later) (may : possible outcome)
      (confined : Confined True own rest) : Hands next possible later own ((next outcome).andThen rest)
  | handOn {later own lane job rest} (hands : Hands next possible True own (job ()))
      (confined : Confined later own rest) : Hands next possible later own (.submit lane job rest)
  | submit {later own lane job rest} (confined : Confined True own (job ()))
      (hands : Hands next possible later own rest) :
      Hands next possible later own (.submit lane job rest)
  | now {later own rest} (hands : ∀ time, Hands next possible later own (rest time)) :
      Hands next possible later own (.now rest)
  | record {later own event rest} (hands : Hands next possible later own rest) :
      Hands next possible later own (.record event rest)
  | review {later own rest} (hands : ∀ journal, Hands next possible later own (rest journal)) :
      Hands next possible later own (.review rest)
  | gather {later own content rest}
      (hands : ∀ number, Hands next possible later (fun other => own other ∨ other = number)
        (rest number)) : Hands next possible later own (.gather content rest)
  | look {later own number rest} (hands : ∀ content, Hands next possible later own (rest content)) :
      Hands next possible later own (.look number rest)
  | put {later own number content rest} (owned : own number)
      (hands : Hands next possible later own rest) :
      Hands next possible later own (.put number content rest)
  | configure {later own config rest} (hands : Hands next possible later own rest) :
      Hands next possible later own (.configure config rest)
  | inspect {later own rest} (hands : ∀ stats config, Hands next possible later own (rest stats config)) :
      Hands next possible later own (.inspect rest)
  | turn {later own rest} (turned : later) (hands : ∀ turn, Hands next possible later own (rest turn)) :
      Hands next possible later own (.turn rest)
  | drain {later own rest} (turned : later) (hands : ∀ count, Hands next possible later own (rest count)) :
      Hands next possible later own (.drain rest)
  | hold {later own rest} (hands : ∀ waker, Hands next possible later own (rest waker)) :
      Hands next possible later own (.hold rest)
  | wake {later own waker woken rest} (confined : Confined True own (woken ()))
      (hands : Hands next possible later own rest) :
      Hands next possible later own (.wake waker woken rest)
  | await {later own waker rest} (turned : later)
      (hands : ∀ woken, Hands next possible later own (rest woken)) :
      Hands next possible later own (.await waker rest)
  | budget {later own rest} (hands : ∀ bound, Hands next possible later own (rest bound)) :
      Hands next possible later own (.budget rest)

def Script.Spares (cell : Nat) (script : Script σ) : Prop :=
  ∀ (host : Host σ) (loop loop' : Loop σ), cell < loop.groups.size → script.run host loop = some loop' →
    cell < loop'.groups.size ∧ loop'.group cell = loop.group cell

namespace Script.Spares

variable {cell : Nat} {script next last : Script σ}

theorem done : (Script.done : Script σ).Spares cell := by
  intro host loop loop' inside ran
  obtain rfl := Option.some.inj ran
  exact ⟨inside, rfl⟩

theorem submit {lane : Lane} {job : Unit → Script σ} (spares : next.Spares cell) :
    (Script.submit lane job next).Spares cell := by
  intro host loop loop' inside ran
  obtain ⟨_, _, _, _, _, _, _, same⟩ := loop.submit_eq lane job
  have kept := spares host (loop.submit lane job) loop' (by rw [same]; exact inside) ran
  have group : (loop.submit lane job).group cell = loop.group cell := by
    rw [same]
    rfl
  exact ⟨kept.1, kept.2.trans group⟩

theorem gather {content : Group σ} {next : Nat → Script σ}
    (spares : ∀ number, cell ≠ number → (next number).Spares cell) :
    (Script.gather content next).Spares cell := by
  intro host loop loop' inside ran
  have kept := spares loop.groups.size (Nat.ne_of_lt inside) host (loop.gather content) loop'
    (by simpa [Loop.gather] using Nat.lt_succ_of_lt inside) ran
  have group : (loop.gather content).group cell = loop.group cell := by
    simp [Loop.gather, Loop.group, Array.getElem?_push, Nat.ne_of_lt inside]
  exact ⟨kept.1, kept.2.trans group⟩

theorem put {number : Nat} {content : Group σ} (other : cell ≠ number) (spares : next.Spares cell) :
    (Script.put number content next).Spares cell := by
  intro host loop loop' inside ran
  have kept := spares host (loop.put number content) loop' (by simpa [Loop.put] using inside) ran
  have group : (loop.put number content).group cell = loop.group cell := by
    simp [Loop.put, Loop.group, Array.getElem?_setIfInBounds_ne other.symm]
  exact ⟨kept.1, kept.2.trans group⟩

theorem andThen (spares : script.Spares cell) (spares' : last.Spares cell) :
    (script.andThen last).Spares cell := by
  intro host loop loop' inside ran
  rw [Script.run_andThen] at ran
  obtain ⟨middle, first, second⟩ := Option.bind_eq_some_iff.mp ran
  obtain ⟨within, same⟩ := spares host loop middle inside first
  obtain ⟨within', same'⟩ := spares' host middle loop' within second
  exact ⟨within', same'.trans same⟩

end Script.Spares

theorem Script.Confined.spares {turns : Prop} {own : Nat → Prop} {script : Script σ} {cell : Nat}
    (confined : script.Confined turns own) (still : ¬turns) (foreign : ¬own cell) :
    script.Spares cell := by
  induction confined with
  | done => exact .done
  | stuck => exact fun _ _ _ _ ran => absurd ran (by simp [run])
  | submit _ _ _ ih => exact .submit (ih still foreign)
  | record _ ih => exact fun host loop => ih still foreign host (loop.record _)
  | @configure _ _ config _ _ ih => exact fun host loop => ih still foreign host { loop with config }
  | now _ ih | review _ ih | look _ ih | budget _ ih =>
    exact fun host loop => ih _ still foreign host loop
  | inspect _ ih => exact fun host loop => ih _ _ still foreign host loop
  | gather _ ih =>
    exact .gather fun number other => ih number still fun owned => owned.elim foreign other
  | @put _ own number _ _ owned _ ih =>
    have other : cell ≠ number := fun same => foreign (same ▸ owned)
    exact .put other (ih still foreign)
  | hold _ ih => exact fun host loop => ih loop.wakers.size still foreign host loop.hold
  | wake _ _ _ ih => exact fun host loop => ih still foreign host (loop.wake _ _)
  | turn allowed | drain allowed | await allowed => exact absurd allowed still

theorem Script.Hands.spares {ε α : Type} {next : Except ε α → Script σ} {possible : Except ε α → Prop}
    {later : Prop} {own : Nat → Prop} {script : Script σ} {cell : Nat}
    (hands : script.Hands next possible later own) (still : ¬later) (foreign : ¬own cell) :
    script.Spares cell := by
  induction hands with
  | call turned | turn turned | drain turned | await turned => exact absurd turned still
  | handOn _ confined => exact .submit (confined.spares still foreign)
  | submit _ _ ih => exact .submit (ih still foreign)
  | record _ ih => exact fun host loop => ih still foreign host (loop.record _)
  | @configure _ _ config _ _ ih => exact fun host loop => ih still foreign host { loop with config }
  | now _ ih | review _ ih | look _ ih | budget _ ih =>
    exact fun host loop => ih _ still foreign host loop
  | inspect _ ih => exact fun host loop => ih _ _ still foreign host loop
  | gather _ ih =>
    exact .gather fun number other => ih number still fun owned => owned.elim foreign other
  | @put _ own number _ _ owned _ ih =>
    have other : cell ≠ number := fun same => foreign (same ▸ owned)
    exact .put other (ih still foreign)
  | hold _ ih => exact fun host loop => ih loop.wakers.size still foreign host loop.hold
  | wake _ _ ih => exact fun host loop => ih still foreign host (loop.wake _ _)

namespace Loop

/-- A loop whose timers are in order and on which every job keeps to the groups that there are. -/
structure Orderly (loop : Loop σ) : Prop where
  punctual : loop.Punctual
  tasks : ∀ task ∈ loop.pool, (task.script ()).Confined True (· < loop.groups.size)
  wakers : ∀ waker rest, loop.rest? waker = some rest →
    (rest ()).Confined True (· < loop.groups.size)

theorem orderly_fresh (config : Config) : ({ config } : Loop σ).Orderly := by
  have vacant : ({ config } : Loop σ).Vacant := ⟨rfl, rfl, rfl⟩
  refine ⟨vacant.punctual, fun task queued => ?_, fun waker rest given => ?_⟩
  · rw [vacant.pool_eq] at queued
    exact absurd queued (Multiset.notMem_zero task)
  · simp [rest?] at given

theorem Orderly.submit {loop : Loop σ} (orderly : loop.Orderly) (lane : Lane)
    {script : Unit → Script σ} (confined : (script ()).Confined True (· < loop.groups.size)) :
    (loop.submit lane script).Orderly := by
  have pool := loop.pool_submit lane script
  have punctual := orderly.punctual.submit lane script
  obtain ⟨_, _, _, _, _, _, _, same⟩ := loop.submit_eq lane script
  rw [same] at pool punctual ⊢
  refine ⟨punctual, fun task queued => ?_, orderly.wakers⟩
  rw [pool] at queued
  rcases Multiset.mem_cons.mp queued with rfl | queued
  · exact confined
  · exact orderly.tasks task queued

/-- A loop after some turns, between which other scripts have been run that are `admitted`. The turns, and the
other scripts, may be those of a job. -/
inductive Ensues (admitted : Script σ → Prop) (bound : Nat) (loop : Loop σ) : Loop σ → Prop
  | refl : Ensues admitted bound loop loop
  | turn {depth later outcome next} (ensues : Ensues admitted bound loop later)
      (turned : later.turnOn (hostAt bound depth) = some (outcome, next)) : Ensues admitted bound loop next
  | run {depth later next} {script : Script σ} (ensues : Ensues admitted bound loop later)
      (admits : admitted script) (ran : script.run (hostAt bound depth) later = some next) :
      Ensues admitted bound loop next

theorem Ensues.mono {admitted admitted' : Script σ → Prop} {bound : Nat} {loop later : Loop σ}
    (wider : ∀ script, admitted script → admitted' script) (ensues : loop.Ensues admitted bound later) :
    loop.Ensues admitted' bound later := by
  induction ensues with
  | refl => exact .refl
  | turn _ turned ih => exact .turn ih turned
  | run _ admits ran ih => exact .run ih (wider _ admits) ran

abbrev Reaches (bound groups : Nat) (loop later : Loop σ) : Prop :=
  loop.Ensues (fun script => script.Confined True (· < groups)) bound later

end Loop

end Deferred
