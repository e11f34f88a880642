import Deferred.Future.Parallel
import Deferred.Proofs.Loop.Pool

/-! Starting futures side by side runs each of them once, in order, with the arrival of its own place as its
continuation. Some futures only leave it to a waker: when such futures have been started, whoever has the wakers
decides which of the arrivals comes when. -/

namespace Deferred

variable {σ ε ε' α γ : Type}

def Future.leftTo (waker : Nat) (outcome : Except ε α) : Future σ ε α :=
  ⟨fun next => .wake waker (fun _ => next outcome) .done⟩

section Wakers

variable {loop : Loop σ} {waker other : Nat} {rest : Unit → Script σ}

theorem Loop.rest?_wake (inside : waker < loop.wakers.size) :
    (loop.wake waker rest).rest? waker = some rest := by
  simp [Loop.rest?, Loop.wake, inside]

theorem Loop.rest?_wake_of_ne (different : other ≠ waker) :
    (loop.wake waker rest).rest? other = loop.rest? other := by
  simp only [Loop.rest?, Loop.wake, Array.getElem?_setIfInBounds_ne different.symm]

end Wakers

namespace Parallel

def runEach (host : Host σ) (arrive : Nat → Except ε α → Script σ) (start : Nat)
    (futures : List (Future σ ε α)) (loop : Loop σ) : Option (Loop σ) :=
  (futures.zipIdx start).foldlM (fun loop member => (member.1.run (arrive member.2)).run host loop) loop

section Each

variable {host : Host σ} {arrive : Nat → Except ε α → Script σ} {start : Nat}

theorem runEach_cons (future : Future σ ε α) (futures : List (Future σ ε α)) (loop : Loop σ) :
    runEach host arrive start (future :: futures) loop =
      ((future.run (arrive start)).run host loop).bind (runEach host arrive (start + 1) futures) := by
  simp only [runEach, List.zipIdx_cons, List.foldlM_cons]
  rfl

theorem run_startAll (futures : List (Future σ ε α)) (loop : Loop σ) :
    (startAll arrive start futures).run host loop = runEach host arrive start futures loop := by
  induction futures generalizing start loop with
  | nil => rfl
  | cons future futures ih =>
    rw [startAll, Script.run_andThen, runEach_cons]
    exact congrArg (Option.bind _) (funext fun _ => ih _)

theorem run_sideBySide {content : Group σ}
    {arrive : (Except ε' γ → Script σ) → Nat → Nat → Except ε α → Script σ}
    (futures : List (Future σ ε α)) (next : Except ε' γ → Script σ) (loop : Loop σ) :
    ((sideBySide content arrive futures).run next).run host loop =
      runEach host (arrive next loop.groups.size) 0 futures (loop.gather content) :=
  run_startAll futures _

/-- Futures that leave their continuations to wakers do nothing else when they are run. Each waker has the arrival
of its own outcome at its own place. -/
theorem runEach_leftTo (host : Host σ) (arrive : Nat → Except ε α → Script σ) (start : Nat) (loop : Loop σ)
    {wakers : List Nat} {outcomes : List (Except ε α)} (different : wakers.Nodup)
    (length : wakers.length = outcomes.length)
    (inside : ∀ waker ∈ wakers, waker < loop.wakers.size) :
    ∃ started : Loop σ,
      runEach host arrive start (List.zipWith Future.leftTo wakers outcomes) loop = some started ∧
      { started with wakers := loop.wakers } = loop ∧
      (∀ waker ∉ wakers, started.rest? waker = loop.rest? waker) ∧
      ∀ index waker outcome, wakers[index]? = some waker → outcomes[index]? = some outcome →
        started.rest? waker = some fun _ => arrive (start + index) outcome := by
  induction wakers generalizing outcomes start loop with
  | nil => exact ⟨loop, rfl, rfl, fun _ _ => rfl, fun _ _ _ found => absurd found (by simp)⟩
  | cons first wakers ih =>
    obtain ⟨own, outcomes, rfl⟩ := List.exists_cons_of_length_eq_add_one (n := wakers.length) length.symm
    obtain ⟨absent, different⟩ := List.nodup_cons.mp different
    let left := loop.wake first fun _ => arrive start own
    have within : ∀ waker ∈ wakers, waker < left.wakers.size := by
      intro waker member
      simpa [left, Loop.wake] using inside waker (List.mem_cons_of_mem _ member)
    obtain ⟨started, ran, same, others, arrivals⟩ :=
      ih (start + 1) left different (Nat.succ.inj length) within
    have outside : ({ started with wakers := loop.wakers } : Loop σ) = loop :=
      congrArg (fun after : Loop σ => { after with wakers := loop.wakers }) same
    refine ⟨started, by rw [List.zipWith_cons_cons, runEach_cons]; exact ran, outside, ?_, ?_⟩
    · intro waker outsider
      obtain ⟨different, missing⟩ := not_or.mp (List.mem_cons.not.mp outsider)
      rw [others waker missing]
      exact Loop.rest?_wake_of_ne different
    · intro index waker outcome found found'
      cases index with
      | zero =>
        obtain rfl : first = waker := Option.some.inj found
        obtain rfl : own = outcome := Option.some.inj found'
        rw [others first absent]
        exact Loop.rest?_wake (inside first List.mem_cons_self)
      | succ index =>
        rw [arrivals index waker outcome found found', Nat.add_right_comm]
        rfl

end Each

end Parallel

end Deferred
