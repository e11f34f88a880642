import Deferred.Proofs.Debt.Run

/-! Runs of turns where finitely many jobs are to come and no job makes turns itself. A turn runs one of
these jobs, or sleeps until one is due, which the next turn runs. So the books tell how many turns are
enough, which jobs are run, and how far the clock gets. -/

namespace Deferred

variable {σ : Type} {setting : Setting} {world : World σ}

theorem Ledger.left_ne_zero {held : Multiset Debt} {left : ℕ∞} {loop : Loop σ} {book : Multiset (Entry σ)}
    {pending : Nat → Finset Nat} (ledger : Ledger setting world held left loop book pending)
    (busy : loop.pool ≠ 0) : left ≠ 0 := by
  rintro rfl
  obtain ⟨_, counted, _⟩ := ledger.jobs.resolve_left ENat.zero_ne_top
  obtain ⟨entry, member⟩ : ∃ entry, entry ∈ book := by
    apply Multiset.exists_mem_of_ne_zero
    rintro rfl
    exact busy ledger.pool
  obtain ⟨rest, rfl⟩ := Multiset.exists_cons_of_mem member
  rw [Multiset.map_cons, Multiset.sum_cons] at counted
  simp at counted

/-- With nothing left to be done, no jobs are to come, not even those of a group that is not settled. -/
theorem Ledger.left_eq_zero {left : ℕ∞} {loop : Loop σ} {book : Multiset (Entry σ)}
    {pending : Nat → Finset Nat} (ledger : Ledger setting world 0 left loop book pending)
    (strict : ¬setting.lenient) (empty : loop.pool = 0) (finite : left ≠ ⊤) : left = 0 := by
  have closed : book = 0 := Multiset.map_eq_zero.mp (ledger.pool.symm.trans empty)
  have settled : world.total Protocol.depositJobs loop.group = 0 := by
    apply World.total_eq_zero
    intro other protocol known
    unfold Protocol.depositJobs
    split
    next => rfl
    next unsettled =>
      by_contra some
      obtain ⟨member, waiting, _⟩ := protocol.waits (ledger.valid other protocol known)
        (Bool.eq_false_iff.mpr unsettled) fun none => some (protocol.jobs_eq none)
      exact ledger.settled_of_pool_eq empty ⟨other, member⟩ (fun lenient => absurd lenient strict) waiting
  obtain ⟨spared, counted, allowed⟩ := ledger.jobs.resolve_left finite
  have none : spared = 0 := by
    by_contra some
    exact strict (allowed some)
  rwa [closed, settled, none, Multiset.map_zero, Multiset.sum_zero, add_zero, add_zero, eq_comm] at counted

/-- A run of turns over finitely many jobs ends where it is to halt, or when nothing is left to be done. -/
theorem Sound.driveWith {loop : Loop σ} {count fuel ran : Nat} {latest : ℕ∞} {halt : Loop σ → Bool}
    (simple : ¬setting.nested)
    (timeless : ∀ (loop : Loop σ) now, halt { loop with clock := now } = halt loop)
    (timely : ∀ later next left, world <+: later → Sound setting later 0 left next →
      halt next = false → next.pool ≠ 0 → (next.clock : ℕ∞) ≤ latest)
    (sound : Sound setting world 0 count loop) (early : (loop.clock : ℕ∞) ≤ latest)
    (enough : 2 * count < fuel ∨ 2 * count ≤ fuel ∧ ∃ task ∈ loop.pool, task.due = loop.clock) :
    ∃ (done less : Nat) (after : Loop σ), done + less = count ∧
      Loop.driveWith (Loop.turn setting.bound) halt fuel ran loop = some (ran + done, after) ∧
      (∃ later, world <+: later ∧ Sound setting later 0 less after) ∧
      (after.clock : ℕ∞) ≤ latest ∧ (halt after = true ∨ after.pool = 0) := by
  -- On the turns that are allowed: two for each job, the first of which may be a sleep.
  induction fuel generalizing world loop count ran with
  | zero =>
    obtain ⟨none, task, member, _⟩ := enough.resolve_left (Nat.not_lt_zero _)
    obtain ⟨book, pending, ledger⟩ := sound
    have busy : loop.pool ≠ 0 := fun empty => Multiset.notMem_zero task (empty ▸ member)
    exact absurd (Nat.cast_eq_zero.mpr (by omega)) (ledger.left_ne_zero busy)
  | succ fuel ih =>
    cases halted : halt loop with
    | true =>
      exact ⟨0, count, loop, Nat.zero_add count, by simp [Loop.driveWith, halted],
        ⟨world, List.prefix_refl world, sound⟩, early, .inl halted⟩
    | false =>
      obtain ⟨makes, turned⟩ := (keeps_hostAt setting setting.bound).turned sound fun _ => rfl
      obtain ⟨⟨outcome, next⟩, made⟩ := makes simple
      have made' : loop.turn setting.bound = some (outcome, next) := made
      cases turned outcome next made with
      | @ran left' _ fewer follows =>
        obtain ⟨later, extended, sound', _, same⟩ := follows
        have clock : next.clock = loop.clock := same.resolve_left simple
        have finite : left' ≠ ⊤ := by
          rintro rfl
          exact ENat.natCast_ne_top count (fewer.trans (top_add 1))
        lift left' to ℕ using finite
        obtain rfl : count = left' + 1 := by exact_mod_cast fewer
        obtain ⟨done, less, after, rfl, driven, ⟨last, extended', sound''⟩, ends⟩ :=
          @ih later next left' (ran + 1)
            (fun last next left extended' => timely last next left (extended.trans extended'))
            sound' (clock ▸ early) (.inl (by omega))
        refine ⟨done + 1, less, after, by omega, ?_, ⟨last, extended.trans extended', sound''⟩, ends⟩
        have total : ran + 1 + done = ran + (done + 1) := by omega
        rw [total] at driven
        simpa [Loop.driveWith, halted, made'] using driven
      | @slept now ahead due _ sound' =>
        obtain ⟨task, member, first⟩ := due
        have busy : ({ loop with clock := now } : Loop σ).pool ≠ 0 :=
          fun empty => Multiset.notMem_zero task (empty ▸ member)
        have early' : (now : ℕ∞) ≤ latest :=
          timely world { loop with clock := now } count (List.prefix_refl world) sound'
            ((timeless loop now).trans halted) busy
        have more : 2 * count < fuel + 1 := by
          refine enough.resolve_right fun asleep => ?_
          obtain ⟨_, other, waiting, same⟩ := asleep
          exact absurd same (Nat.ne_of_gt (ahead other waiting))
        obtain ⟨done, less, after, total, driven, ends⟩ :=
          @ih world _ count ran timely sound' early' (.inr ⟨by omega, task, member, first⟩)
        exact ⟨done, less, after, total, by simpa [Loop.driveWith, halted, made'] using driven, ends⟩
      | idle empty =>
        exact ⟨0, count, loop, Nat.zero_add count, by simp [Loop.driveWith, halted, made'],
          ⟨world, List.prefix_refl world, sound⟩, early, .inr empty⟩

end Deferred
