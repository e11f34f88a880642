import Deferred.Proofs.Debt.Arrival
import Deferred.Proofs.Debt.Drive
import Deferred.Proofs.Debt.Future
import Deferred.Proofs.Debt.Start

/-! Waiting for a future that keeps an exact promise. The group that its outcome is delivered to comes
first among the groups that anybody owes to, so once the delivery is made nothing is owed any more, and
the loop is as empty as it was before. -/

universe u

namespace Deferred

variable {σ ε : Type} {α : Type}

def Protocol.cell [Storable (Except ε α) σ] (promise : Promise ε α) (start : Nat) : Protocol σ :=
  unawaited {0} (fun _ => start + promise.latest)
    (fun now content pending =>
      if 0 ∈ pending then content = .ofSize 1
      else ∃ outcome delay, promise.may outcome delay ∧ start + delay ≤ now ∧
        content.slots = [some (store outcome)])
    fun {now later content pending} before valid => by
      split at valid
      next waiting => simpa only [waiting, if_true] using valid
      next done =>
        obtain ⟨outcome, delay, may, past, slots⟩ := valid
        rw [if_neg done]
        exact ⟨outcome, delay, may, past.trans before, slots⟩

theorem Protocol.cell_valid [Storable (Except ε α) σ] (promise : Promise ε α) (start now : Nat) :
    (cell promise start : Protocol σ).valid now (.ofSize 1) {0} := by
  simp [cell, unawaited]

theorem pays_deliver [Storable (Except ε α) σ] {setting : Setting} {world : World σ} {number : Nat}
    {promise : Promise ε α} {start delay : Nat} {outcome : Except ε α}
    (known : world[number]? = some (.cell promise start)) (may : promise.may outcome delay) :
    Pays setting world {⟨number, 0⟩} (start + delay) 0 (Loop.deliver number outcome) := by
  rw [← zero_add ({⟨number, 0⟩} : Multiset Debt)]
  have early : ((start + delay : Nat) : ℕ∞) ≤ (Protocol.cell promise start : Protocol σ).latest 0 := by
    rw [Nat.cast_add]
    exact add_le_add_right (promise.le_latest may) _
  apply Arrives.pays known early (by simp)
  intro content pending expects
  have empty : content = .ofSize 1 := by
    have valid := expects.valid
    simpa only [Protocol.cell, Protocol.unawaited, expects.awaited, if_true] using valid
  refine .waits (content.fill 0 (store outcome)) .done (.look (.put (.refl _))) ?_ rfl .done
  have gone : 0 ∉ pending.erase 0 := Finset.notMem_erase 0 pending
  simp only [Protocol.cell, Protocol.unawaited, gone, if_false]
  exact ⟨outcome, delay, may, le_refl _, by rw [empty]; rfl⟩

theorem Ledger.not_mem_of_hasDelivery [Storable (Except ε α) σ] {setting : Setting} {world : World σ}
    {held : Multiset Debt} {left : ℕ∞} {loop : Loop σ} {book : Multiset (Entry σ)}
    {pending : Nat → Finset Nat} {number start : Nat} {promise : Promise ε α}
    (ledger : Ledger setting world held left loop book pending)
    (known : world[number]? = some (.cell promise start)) (delivered : loop.hasDelivery number = true) :
    0 ∉ pending number := by
  intro live
  have valid := ledger.valid number _ known
  simp only [Protocol.cell, Protocol.unawaited, live, if_true] at valid
  simp [Loop.hasDelivery, valid, Group.ofSize] at delivered

theorem Ledger.delivery [Storable (Except ε α) σ] {setting : Setting} {world : World σ}
    {held : Multiset Debt} {left : ℕ∞} {loop : Loop σ} {book : Multiset (Entry σ)}
    {pending : Nat → Finset Nat} {number start : Nat} {promise : Promise ε α}
    (ledger : Ledger setting world held left loop book pending)
    (known : world[number]? = some (.cell promise start)) (gone : 0 ∉ pending number) :
    ∃ outcome delay, promise.may outcome delay ∧ start + delay ≤ loop.clock ∧
      (loop.group number).slots = [some (store outcome)] := by
  have valid := ledger.valid number _ known
  simpa only [Protocol.cell, Protocol.unawaited, gone, if_false] using valid

section Exact

variable [Storable (Except ε α) σ] {setting : Setting} {bound number start : Nat}
  {outcome : Except ε α} {delay : Nat} {world : World σ} {left : ℕ∞} {loop : Loop σ}
  {promise : Promise ε α}

def Setting.waiting (bound root : Nat) : Setting where
  bound
  nested := False
  patient := True
  common _ := False
  root

theorem Sound.of_not_hasDelivery (sound : Sound setting world 0 left loop)
    (due : promise.latest ≠ ⊤) (known : world[number]? = some (.cell promise start))
    (undelivered : loop.hasDelivery number = false) :
    loop.pool ≠ 0 ∧ (loop.clock : ℕ∞) ≤ start + promise.latest := by
  obtain ⟨book, pending, ledger⟩ := sound
  have live : 0 ∈ pending number := by
    by_contra gone
    obtain ⟨_, _, _, _, slots⟩ := ledger.delivery known gone
    simp [Loop.hasDelivery, slots] at undelivered
  have timely := ledger.timely ⟨number, 0⟩ live
  have latest : world.latest ⟨number, 0⟩ = start + promise.latest := World.latest_eq known 0
  refine ⟨fun empty => ledger.settled_of_pool_eq empty ⟨number, 0⟩ (fun _ => ?_) live, latest ▸ timely⟩
  rw [latest]
  exact WithTop.add_ne_top.mpr ⟨ENat.natCast_ne_top start, due⟩

theorem Sound.of_hasDelivery (sound : Sound (.waiting bound number) world 0 left loop)
    (extended : World.placed number (.cell promise start) <+: world)
    (delivered : loop.hasDelivery number = true) : loop.pool = 0 := by
  obtain ⟨book, pending, ledger⟩ := sound
  have known := World.getElem?_extend extended (World.placed_getElem? number (.cell promise start))
  have gone := ledger.not_mem_of_hasDelivery known delivered
  have nobody : ∀ debt : Debt, debt.member ∉ pending debt.group := by
    intro debt live
    obtain ⟨first, early, waited⟩ := ledger.rooted trivial debt live
    rcases Nat.lt_or_eq_of_le early with older | same
    · have free := World.getElem?_extend extended (World.placed_getElem?_of_lt (.cell promise start) older)
      exact Finset.notMem_empty _ (ledger.members _ _ free waited)
    · simp only [Setting.waiting] at same
      rw [same] at waited
      have only := ledger.members _ _ known waited
      rw [Protocol.cell, Protocol.unawaited, Finset.mem_singleton] at only
      exact gone (only ▸ waited)
  by_contra busy
  obtain ⟨debt, live⟩ := ledger.exists_live trivial busy
  exact nobody debt live

/-- The books of a loop on which a future has been started, behind the groups that there were. -/
theorem Future.Keeps.started {future : Future σ ε α} (simple : ¬setting.nested)
    (root : setting.patient → setting.root = loop.groups.size)
    (common : ∀ number, setting.common number → number < loop.groups.size)
    (keeps : future.Keeps setting promise) (vacant : loop.Vacant) :
    ∃ started, Loop.perform setting.bound (future.run (Loop.deliver loop.groups.size))
        (loop.gather (.ofSize 1)) = some started ∧ started.clock = loop.clock ∧
      ∃ world, World.placed loop.groups.size (.cell promise loop.clock) <+: world ∧
        Sound setting world 0 promise.jobs started := by
  have gathered := (vacant.sound simple (fun patient => ge_of_eq (root patient)) common).place
    (.cell promise loop.clock) rfl rfl (Protocol.cell_valid ..) le_self_add root
    fun nested => absurd nested simple
  have known := World.placed_getElem? loop.groups.size (.cell promise loop.clock : Protocol σ)
  have pays : Pays _ _ {⟨loop.groups.size, 0⟩} loop.clock (promise.jobs + 0)
      (future.run (Loop.deliver loop.groups.size)) :=
    keeps (ge_of_eq (World.latest_eq known 0)) fun _ _ may => pays_deliver known may
  obtain ⟨ends, follows⟩ := pays.run (keeps_hostAt setting setting.bound)
    (loop.gather (.ofSize 1)) rfl gathered
  obtain ⟨started, ran⟩ := ends simple
  obtain ⟨world, extended, sound, _, clock⟩ := follows started ran
  rw [zero_add, add_zero] at sound
  exact ⟨started, ran, clock.resolve_left simple, world, extended, sound⟩

/-- A future that keeps an exact promise settles as it says and when it says, by then with no more jobs
than it says, however the loop is configured. -/
theorem Future.Keeps.driven {future : Future σ ε α} {count : Nat} (simple : ¬setting.nested)
    (root : setting.patient → setting.root = loop.groups.size)
    (common : ∀ number, setting.common number → number < loop.groups.size)
    (keeps : future.Keeps setting (.exactly outcome delay count)) (vacant : loop.Vacant)
    (enough : 2 * count < setting.bound) :
    ∃ (done less : Nat) (after : Loop σ), done + less = count ∧
      loop.waitFor setting.bound future =
        some ⟨some outcome, done, after.put loop.groups.size (.ofSize 0)⟩ ∧
      after.clock = loop.clock + delay ∧ after.hasDelivery loop.groups.size = true ∧
      ∃ later, World.placed loop.groups.size (.cell (.exactly outcome delay count) loop.clock) <+: later ∧
        Sound setting later 0 less after := by
  have known := World.placed_getElem? loop.groups.size
    (.cell (.exactly outcome delay count) loop.clock : Protocol σ)
  obtain ⟨started, ran, clock, world, extended, sound⟩ := keeps.started simple root common vacant
  have due : (Promise.exactly outcome delay count).latest ≠ ⊤ := ENat.natCast_ne_top delay
  have early : (started.clock : ℕ∞) ≤ loop.clock + (Promise.exactly outcome delay count).latest := by
    rw [clock]
    exact le_self_add
  obtain ⟨done, less, after, total, driven, ⟨later, extended', sound'⟩, timely, halted⟩ :=
    @Sound.driveWith _ _ _ started count setting.bound 0 _ (Loop.hasDelivery loop.groups.size) simple
      (fun _ _ => rfl) (fun later next left extended' sound undelivered _ =>
        (sound.of_not_hasDelivery due (World.getElem?_extend (extended.trans extended') known)
          undelivered).2)
      sound early (.inl enough)
  have known' := World.getElem?_extend (extended.trans extended') known
  have delivered : after.hasDelivery loop.groups.size = true := by
    by_contra undelivered
    exact (sound'.of_not_hasDelivery due known' (Bool.not_eq_true _ ▸ undelivered)).1
      (halted.resolve_left undelivered)
  have ⟨book, pending, ledger⟩ := sound'
  obtain ⟨found, waited, ⟨rfl, rfl⟩, past, slots⟩ :=
    ledger.delivery known' (ledger.not_mem_of_hasDelivery known' delivered)
  have driving : started.drive setting.bound (Loop.hasDelivery loop.groups.size) = some (done, after) := by
    rw [zero_add] at driven
    exact driven
  have taken : (after.group loop.groups.size).values.head?.bind load? = some found := by
    simp [Group.values, slots]
  refine ⟨done, less, after, total, ?_, ?_, delivered, later, extended.trans extended', sound'⟩
  · simp only [Loop.waitFor, ran, driving, taken]
  · have bound : (after.clock : ℕ∞) ≤ (loop.clock + waited : Nat) := timely.trans (by simp [Promise.exactly])
    exact le_antisymm (Nat.cast_le.mp bound) past

def Setting.forgiving (bound : Nat) : Setting where
  bound
  nested := False
  patient := False
  lenient := True
  common _ := False
  root := 0

theorem Future.Keeps.idles {future : Future σ ε α} {count : Nat} (simple : ¬setting.nested)
    (root : setting.patient → setting.root = loop.groups.size)
    (common : ∀ number, setting.common number → number < loop.groups.size)
    (keeps : future.Keeps setting (.never count)) (vacant : loop.Vacant)
    (enough : 2 * count < setting.bound) :
    ∃ ran after, loop.waitFor setting.bound future = some ⟨none, ran, after⟩ := by
  have known := World.placed_getElem? loop.groups.size
    (.cell (.never count : Promise ε α) loop.clock : Protocol σ)
  obtain ⟨started, ran, _, world, extended, sound⟩ := keeps.started simple root common vacant
  obtain ⟨done, less, after, _, driven, ⟨later, extended', sound'⟩, _⟩ :=
    @Sound.driveWith _ _ _ started count setting.bound 0 ⊤ (Loop.hasDelivery loop.groups.size) simple
      (fun _ _ => rfl) (fun _ _ _ _ _ _ _ => le_top) sound le_top (.inl enough)
  obtain ⟨book, pending, ledger⟩ := sound'
  have known' := World.getElem?_extend (extended.trans extended') known
  have waiting : 0 ∈ pending loop.groups.size := by
    by_contra gone
    obtain ⟨_, _, come, _⟩ := ledger.delivery known' gone
    exact come
  have empty : after.group loop.groups.size = .ofSize 1 := by
    have valid := ledger.valid _ _ known'
    simpa only [Protocol.cell, Protocol.unawaited, waiting, if_true] using valid
  have driving : started.drive setting.bound (Loop.hasDelivery loop.groups.size) =
      some (0 + done, after) := driven
  have taken : (after.group loop.groups.size).values.head?.bind load? =
      (none : Option (Except ε α)) := by
    simp [empty, Group.values, Group.ofSize]
  refine ⟨0 + done, after.put loop.groups.size (.ofSize 0), ?_⟩
  simp only [Loop.waitFor, ran, driving, taken]

/-- On a loop where nothing else is to be done it takes all of its jobs, and leaves nothing behind. -/
theorem Future.Keeps.waitFor {future : Future σ ε α} {count : Nat}
    (keeps : future.Keeps (.waiting bound loop.groups.size) (.exactly outcome delay count))
    (vacant : loop.Vacant) (enough : 2 * count < bound) :
    ∃ after, loop.waitFor bound future = some ⟨some outcome, count, after⟩ ∧ after.Vacant ∧
      after.clock = loop.clock + delay := by
  obtain ⟨done, less, after, rfl, waited, clock, delivered, later, extended, sound⟩ :=
    keeps.driven not_false (fun _ => rfl) (fun _ => False.elim) vacant enough
  have empty := sound.of_hasDelivery extended delivered
  have ⟨book, pending, ledger⟩ := sound
  obtain rfl : less = 0 :=
    Nat.cast_eq_zero.mp (ledger.left_eq_zero not_false empty (ENat.natCast_ne_top less))
  have vacant := Loop.vacant_of_pool_eq empty
  exact ⟨_, waited, ⟨vacant.ready, vacant.low, vacant.timers⟩, clock⟩

/-- Once a future has been waited for, draining the loop runs all of the jobs that are left. -/
theorem Sound.drained {count : Nat} {latest : ℕ∞} (simple : ¬setting.nested) (strict : ¬setting.lenient)
    (timely : ∀ later next left, world <+: later → Sound setting later 0 left next →
      next.pool ≠ 0 → (next.clock : ℕ∞) ≤ latest)
    (sound : Sound setting world 0 count loop) (free : world[number]? = some .free)
    (early : (loop.clock : ℕ∞) ≤ latest) (enough : 2 * count < setting.bound) :
    ∃ (ran rest : Nat) (after last : Loop σ), ran + rest = count ∧
      loop.drive setting.bound (Loop.hasDelivery number) = some (ran, after) ∧
      (after.put number (.ofSize 0)).drain setting.bound = some (rest, last) ∧
      last.pool = 0 ∧ (last.clock : ℕ∞) ≤ latest ∧
      ∃ later, world <+: later ∧ Sound setting later 0 0 last := by
  obtain ⟨ran, left, after, total, driven, ⟨later, extended, halted⟩, early, _⟩ :=
    @Sound.driveWith _ _ _ loop count setting.bound 0 _ (Loop.hasDelivery number) simple
      (fun _ _ => rfl) (fun later next left extended sound _ => timely later next left extended sound)
      sound early (.inl enough)
  have pays : Pays setting later 0 after.clock 0 (.put number (.ofSize 0) .done) :=
    .put (.inr (World.getElem?_extend extended free)) .done
  rw [← zero_add (0 : Multiset Debt)] at halted
  obtain ⟨cleared, extended', sound, _⟩ :=
    (pays.run (keeps_hostAt setting setting.bound) after rfl halted).2 _ rfl
  rw [add_zero] at sound
  obtain ⟨rest, none, last, total', drained, ⟨world', extended'', ended⟩, late, empty⟩ :=
    @Sound.driveWith _ _ cleared (after.put number (.ofSize 0)) left setting.bound 0 latest
      (fun _ => false) simple (fun _ _ => rfl)
      (fun later next left extended'' sound _ =>
        timely later next left ((extended.trans extended').trans extended'') sound)
      sound early (.inl (by omega))
  replace empty := empty.resolve_left Bool.false_ne_true
  have ⟨book, pending, ledger⟩ := ended
  obtain rfl : none = 0 :=
    Nat.cast_eq_zero.mp (ledger.left_eq_zero strict empty (ENat.natCast_ne_top none))
  rw [zero_add] at driven drained
  exact ⟨ran, rest, after, last, by omega, driven, drained, empty, late, world',
    (extended.trans extended').trans extended'', ended⟩

end Exact

end Deferred
