import Deferred.Proofs.Debt.Basic

/-! The ledger of a loop: which debts each task of the pool is to pay, and which members each group
still waits for. It balances: a debt is owed by exactly one task, or by a script that is running, or
is kept by exactly one group that is not settled, as long as its group waits for it, and by nobody
after that; unless it was waived. Every step of a script keeps the ledger in balance. -/

namespace Deferred

variable {σ : Type}

structure Entry (σ : Type) extends Task σ where
  debts : Multiset Debt
  jobs : ℕ∞

namespace World

variable {M : Type} [AddCommMonoid M]

def total (quantity : Protocol σ → Group σ → M) (world : World σ) (groups : Nat → Group σ) : M :=
  ∑ number ∈ Finset.range world.length,
    match world[number]? with
    | some protocol => quantity protocol (groups number)
    | none => 0

theorem total_update (quantity : Protocol σ → Group σ → M) {world : World σ} {number : Nat}
    {protocol : Protocol σ} (known : world[number]? = some protocol) (groups : Nat → Group σ) :
    ∃ others, ∀ content,
      total quantity world (Function.update groups number content) =
        quantity protocol content + others := by
  refine ⟨∑ other ∈ (Finset.range world.length).erase number,
    match world[other]? with
    | some protocol => quantity protocol (groups other)
    | none => 0, fun content => ?_⟩
  have inside : number ∈ Finset.range world.length :=
    Finset.mem_range.mpr (List.getElem?_eq_some_iff.mp known).1
  rw [total, ← Finset.add_sum_erase _ _ inside]
  simp only [known, Function.update_self]
  refine congrArg _ (Finset.sum_congr rfl fun other member => ?_)
  rw [Function.update_of_ne (Finset.ne_of_mem_erase member)]

theorem total_eq_zero {quantity : Protocol σ → Group σ → M} {world : World σ} {groups : Nat → Group σ}
    (none : ∀ (number : Nat) (protocol : Protocol σ), world[number]? = some protocol →
      quantity protocol (groups number) = 0) : total quantity world groups = 0 := by
  apply Finset.sum_eq_zero
  intro number _
  split
  next protocol known => exact none number protocol known
  next => rfl

theorem total_append (quantity : Protocol σ → Group σ → M) (world : World σ) (protocol : Protocol σ)
    {groups groups' : Nat → Group σ} (same : ∀ number < world.length, groups' number = groups number) :
    total quantity (world ++ [protocol]) groups' =
      total quantity world groups + quantity protocol (groups' world.length) := by
  rw [total, List.length_append, List.length_singleton, Finset.sum_range_succ]
  simp only [List.getElem?_concat_length]
  refine congrArg (· + _) (Finset.sum_congr rfl fun number member => ?_)
  have inside := Finset.mem_range.mp member
  rw [List.getElem?_append_left inside, same number inside]

end World

namespace Loop

theorem group_gather (loop : Loop σ) (content : Group σ) :
    (loop.gather content).group loop.groups.size = content := by
  simp [gather, group]

theorem group_gather_of_lt (loop : Loop σ) (content : Group σ) {number : Nat}
    (inside : number < loop.groups.size) :
    (loop.gather content).group number = loop.group number := by
  simp [gather, group, Array.getElem?_push, Nat.ne_of_lt inside]

theorem group_put (loop : Loop σ) (content : Group σ) {number : Nat}
    (inside : number < loop.groups.size) :
    (loop.put number content).group = Function.update loop.group number content := by
  funext other
  rcases eq_or_ne other number with rfl | different
  · simp [put, group, inside]
  · simp [put, group, Array.getElem?_setIfInBounds_ne different.symm, Function.update_of_ne different]

end Loop

/-- The books of a loop. `held` is what the scripts owe that are running, and `left` the number of jobs
to come, not counting theirs; if it is infinite, nothing is known of it. -/
structure Ledger (setting : Setting) (world : World σ) (held : Multiset Debt) (left : ℕ∞)
    (loop : Loop σ) (book : Multiset (Entry σ)) (pending : Nat → Finset Nat) : Prop where
  size : world.length = loop.groups.size
  punctual : loop.Punctual
  pool : loop.pool = book.map Entry.toTask
  pays : ∀ entry ∈ book, Pays setting world entry.debts entry.due entry.jobs (entry.script ())
  owing : setting.patient → ∀ entry ∈ book, entry.debts ≠ 0
  members : ∀ (number : Nat) (protocol : Protocol σ), world[number]? = some protocol →
    pending number ⊆ protocol.members
  unknown : ∀ number : Nat, world.length ≤ number → pending number = ∅
  valid : ∀ (number : Nat) (protocol : Protocol σ), world[number]? = some protocol →
    protocol.valid loop.clock (loop.group number) (pending number)
  /-- A group waits for the sake of an older one. -/
  onward : ∀ (number : Nat) (protocol : Protocol σ), world[number]? = some protocol →
    ∀ debt ∈ protocol.onward, debt.group < number ∧ protocol.deadline ≤ world.latest debt
  balance : ∀ debt : Debt, ∃ waived : Nat,
    ((book.map Entry.debts).sum + held + world.total Protocol.deposit loop.group).count debt + waived =
        (if debt.member ∈ pending debt.group then 1 else 0) ∧
      (waived ≠ 0 → setting.lenient ∧ world.latest debt = ⊤)
  jobs : left = ⊤ ∨ ∃ spared : ℕ∞,
    (book.map fun entry => entry.jobs + 1).sum + world.total Protocol.depositJobs loop.group + spared =
        left ∧
      (spared ≠ 0 → setting.lenient)
  timely : ∀ debt : Debt, debt.member ∈ pending debt.group →
    (loop.clock : ℕ∞) ≤ world.latest debt
  unhurried : setting.nested → ∀ (number : Nat) (protocol : Protocol σ), world[number]? = some protocol →
    ∀ member, protocol.latest member = ⊤
  patient : setting.patient → ∀ (number : Nat) (protocol : Protocol σ), setting.root < number →
    world[number]? = some protocol → protocol.Patient
  common : ∀ number : Nat, setting.common number → world[number]? = some .free
  wakers : setting.nested → ∀ waker rest, loop.rest? waker = some rest →
    ∀ later time, world <+: later → loop.clock ≤ time → Pays setting later 0 time ⊤ (rest ())

def Sound (setting : Setting) (world : World σ) (held : Multiset Debt) (left : ℕ∞)
    (loop : Loop σ) : Prop :=
  ∃ book pending, Ledger setting world held left loop book pending

theorem Sound.forget {setting : Setting} {world : World σ} {held : Multiset Debt} {left : ℕ∞}
    {loop : Loop σ} (sound : Sound setting world held left loop) :
    Sound setting world held ⊤ loop := by
  obtain ⟨book, pending, ledger⟩ := sound
  exact ⟨book, pending, { ledger with jobs := .inl rfl }⟩

namespace Ledger

variable {setting : Setting} {world : World σ} {held : Multiset Debt} {left : ℕ∞} {loop : Loop σ}
  {book : Multiset (Entry σ)} {pending : Nat → Finset Nat}

theorem group_lt (ledger : Ledger setting world held left loop book pending) {debt : Debt}
    (live : debt.member ∈ pending debt.group) : debt.group < world.length := by
  by_contra unknown
  rw [ledger.unknown _ (Nat.not_lt.mp unknown)] at live
  exact Finset.notMem_empty _ live

theorem live_of_mem (ledger : Ledger setting world held left loop book pending) {debt : Debt}
    (owed : debt ∈ (book.map Entry.debts).sum + held + world.total Protocol.deposit loop.group) :
    debt.member ∈ pending debt.group := by
  obtain ⟨waived, counted, _⟩ := ledger.balance debt
  by_contra gone
  rw [if_neg gone] at counted
  exact Multiset.count_eq_zero.mp (Nat.eq_zero_of_add_eq_zero_right counted) owed

theorem mem_total_deposit {groups : Nat → Group σ} {debt : Debt}
    (kept : debt ∈ world.total Protocol.deposit groups) :
    ∃ number protocol, world[number]? = some protocol ∧ (groups number).settled = false ∧
      debt ∈ protocol.onward := by
  obtain ⟨number, _, kept⟩ := Multiset.mem_sum.mp kept
  split at kept
  next protocol known =>
    unfold Protocol.deposit at kept
    split at kept
    next => exact absurd kept (Multiset.notMem_zero debt)
    next unsettled => exact ⟨number, protocol, known, Bool.eq_false_iff.mpr unsettled, kept⟩
  next => exact absurd kept (Multiset.notMem_zero debt)

theorem deposit_le_total {groups : Nat → Group σ} {number : Nat} {protocol : Protocol σ}
    (known : world[number]? = some protocol) {debt : Debt}
    (kept : debt ∈ protocol.deposit (groups number)) :
    debt ∈ world.total Protocol.deposit groups := by
  refine Multiset.mem_sum.mpr ⟨number,
    Finset.mem_range.mpr (List.getElem?_eq_some_iff.mp known).1, ?_⟩
  rw [known]
  exact kept

/-- Whatever is waited for and may not be waived, somebody owes it or something that comes no later. -/
theorem backed (ledger : Ledger setting world held left loop book pending) (debt : Debt)
    (live : debt.member ∈ pending debt.group) (due : setting.lenient → world.latest debt ≠ ⊤) :
    ∃ owed ∈ (book.map Entry.debts).sum + held, owed.member ∈ pending owed.group ∧
      world.latest owed ≤ world.latest debt := by
  -- On the groups, the latest first: what a group keeps is owed to an older one.
  induction span : world.length - debt.group using Nat.strong_induction_on generalizing debt with
  | _ span ih =>
    have present : debt ∈ (book.map Entry.debts).sum + held +
        world.total Protocol.deposit loop.group := by
      obtain ⟨waived, counted, allowed⟩ := ledger.balance debt
      have none : waived = 0 := by
        by_contra some
        exact due (allowed some).1 (allowed some).2
      rw [none, add_zero, if_pos live] at counted
      exact Multiset.count_pos.mp (counted ▸ one_pos)
    rcases Multiset.mem_add.mp present with owed | kept
    · exact ⟨debt, owed, live, le_refl _⟩
    · obtain ⟨number, protocol, known, unsettled, onward⟩ := mem_total_deposit kept
      have owing : protocol.onward ≠ 0 := fun none => by simp [none] at onward
      obtain ⟨member, waiting, before⟩ :=
        protocol.waits (ledger.valid number protocol known) unsettled owing
      obtain ⟨older, deadline⟩ := ledger.onward number protocol known debt onward
      have inside := (List.getElem?_eq_some_iff.mp known).1
      have early : world.latest ⟨number, member⟩ ≤ world.latest debt :=
        (World.latest_eq known member).trans_le (before.trans deadline)
      obtain ⟨owed, someone, waited, bound⟩ :=
        ih (world.length - number) (by omega) ⟨number, member⟩ waiting
          (fun lenient => ne_top_of_le_ne_top (due lenient) early) rfl
      exact ⟨owed, someone, waited, bound.trans early⟩

theorem settled_of_pool_eq (ledger : Ledger setting world 0 left loop book pending)
    (empty : loop.pool = 0) (debt : Debt) (due : setting.lenient → world.latest debt ≠ ⊤) :
    debt.member ∉ pending debt.group := by
  intro live
  have none : book = 0 := by
    rw [ledger.pool] at empty
    exact Multiset.map_eq_zero.mp empty
  obtain ⟨owed, someone, _⟩ := ledger.backed debt live due
  simp [none] at someone

theorem settled_of_idle (ledger : Ledger setting world 0 left loop book pending)
    (strict : ¬setting.lenient) (idle : loop.next = .idle) (debt : Debt) :
    debt.member ∉ pending debt.group := by
  have finds := Loop.finds_next ledger.punctual
  rw [idle] at finds
  cases finds with
  | idle empty => exact ledger.settled_of_pool_eq empty debt fun lenient => absurd lenient strict

/-- If groups are patient, then everything is waited for as long as anything is. -/
theorem rooted (ledger : Ledger setting world held left loop book pending)
    (patient : setting.patient) (debt : Debt) (live : debt.member ∈ pending debt.group) :
    ∃ first : Debt, first.group ≤ setting.root ∧ first.member ∈ pending first.group := by
  induction number : debt.group using Nat.strong_induction_on generalizing debt with
  | _ number ih =>
    subst number
    rcases Nat.lt_or_ge setting.root debt.group with later | early
    · have known := List.getElem?_eq_getElem (ledger.group_lt live)
      obtain ⟨owing, complete⟩ := ledger.patient patient _ _ later known
      have unsettled : (loop.group debt.group).settled = false := by
        by_contra settled
        rw [complete _ _ _ (ledger.valid _ _ known) (Bool.not_eq_false _ ▸ settled)] at live
        exact Finset.notMem_empty _ live
      obtain ⟨next, onward⟩ := Multiset.exists_mem_of_ne_zero owing
      have kept : next ∈ world.total Protocol.deposit loop.group :=
        deposit_le_total known (by rwa [Protocol.deposit_of_unsettled _ unsettled])
      exact ih next.group (ledger.onward _ _ known next onward).1 next
        (ledger.live_of_mem (Multiset.mem_add.mpr (.inr kept))) rfl
    · exact ⟨debt, early, live⟩

/-- If no job runs that owes nothing, then something is waited for as long as anything is to be done. -/
theorem exists_live (ledger : Ledger setting world held left loop book pending)
    (patient : setting.patient) (busy : loop.pool ≠ 0) :
    ∃ debt : Debt, debt.member ∈ pending debt.group := by
  obtain ⟨entry, member⟩ : ∃ entry, entry ∈ book := by
    apply Multiset.exists_mem_of_ne_zero
    rintro rfl
    exact busy ledger.pool
  obtain ⟨debt, owed⟩ := Multiset.exists_mem_of_ne_zero (ledger.owing patient entry member)
  refine ⟨debt, ledger.live_of_mem (Multiset.mem_add.mpr (.inl (Multiset.mem_add.mpr (.inl ?_))))⟩
  exact Multiset.mem_join.mpr ⟨entry.debts, Multiset.mem_map_of_mem _ member, owed⟩

theorem frame (ledger : Ledger setting world held left loop book pending) {loop' : Loop σ}
    (pool : loop'.pool = loop.pool) (punctual : loop'.Punctual) (clock : loop'.clock = loop.clock)
    (groups : loop'.groups = loop.groups)
    (wakers : ∀ waker rest, loop'.rest? waker = some rest → loop.rest? waker = some rest) :
    Ledger setting world held left loop' book pending := by
  have group : loop'.group = loop.group := by
    funext number
    simp only [Loop.group, groups]
  refine { ledger with
      punctual := punctual
      size := groups ▸ ledger.size
      pool := pool ▸ ledger.pool
      valid := clock ▸ group ▸ ledger.valid
      balance := group ▸ ledger.balance
      jobs := group ▸ ledger.jobs
      timely := clock ▸ ledger.timely
      wakers := ?wakers }
  case wakers =>
    intro nested waker rest given
    rw [clock]
    exact ledger.wakers nested waker rest (wakers waker rest given)

theorem submit {debts debts' : Multiset Debt} {lane : Lane} {job : Unit → Script σ} {jobs : ℕ∞}
    (ledger : Ledger setting world (debts + debts' + held) left loop book pending)
    (owing : setting.patient → debts ≠ 0)
    (handed : Pays setting world debts (lane.due loop.clock) jobs (job ())) :
    Sound setting world (debts' + held) (left + (jobs + 1)) (loop.submit lane job) := by
  obtain ⟨ready, low, timers, streak, armed, issued, journal, same⟩ := loop.submit_eq lane job
  have clock : (loop.submit lane job).clock = loop.clock := by rw [same]
  have groups : (loop.submit lane job).groups = loop.groups := by rw [same]
  have group : (loop.submit lane job).group = loop.group := by
    funext number
    simp only [Loop.group, groups]
  have wakers : (loop.submit lane job).wakers = loop.wakers := by rw [same]
  refine ⟨⟨⟨lane.due loop.clock, job⟩, debts, jobs⟩ ::ₘ book, pending, { ledger with
      punctual := ledger.punctual.submit lane job
      size := groups ▸ ledger.size
      valid := clock ▸ group ▸ ledger.valid
      timely := clock ▸ ledger.timely
      pool := ?pool, pays := ?pays, owing := ?owing, balance := ?balance, jobs := ?jobs
      wakers := ?wakers }⟩
  case pool => rw [loop.pool_submit, ledger.pool, Multiset.map_cons]
  case pays =>
    intro entry member
    rcases Multiset.mem_cons.mp member with new | old
    · exact new ▸ handed
    · exact ledger.pays entry old
  case owing =>
    intro patient entry member
    rcases Multiset.mem_cons.mp member with new | old
    · exact new ▸ owing patient
    · exact ledger.owing patient entry old
  case balance =>
    intro debt
    obtain ⟨waived, before, allowed⟩ := ledger.balance debt
    refine ⟨waived, ?_, allowed⟩
    rw [← before, group, Multiset.map_cons, Multiset.sum_cons]
    simp only [Multiset.count_add]
    omega
  case jobs =>
    rw [group, Multiset.map_cons, Multiset.sum_cons]
    rcases ledger.jobs with unknown | ⟨spared, counted, allowed⟩
    · exact .inl (by rw [unknown, top_add])
    · exact .inr ⟨spared, by rw [← counted]; ring, allowed⟩
  case wakers =>
    intro nested waker rest given
    rw [clock]
    simp only [Loop.rest?, wakers] at given
    exact ledger.wakers nested waker rest given

/-- The members of a new group owe to it what the group owes to the one who waits for it. -/
theorem gather {debts : Multiset Debt} {content : Group σ} (protocol : Protocol σ)
    (ledger : Ledger setting world (debts + protocol.onward + held) left loop book pending)
    (fresh : content.settled = true → protocol.onward = 0)
    (patient : setting.patient → setting.root < world.length → protocol.Patient)
    (unhurried : setting.nested → ∀ member, protocol.latest member = ⊤)
    (valid : protocol.valid loop.clock content protocol.members)
    (deadline : ∀ debt ∈ protocol.onward, protocol.deadline ≤ world.latest debt)
    (timely : ∀ member ∈ protocol.members, (loop.clock : ℕ∞) ≤ protocol.latest member) :
    Sound setting (world ++ [protocol]) (debts + protocol.debts world.length + held)
      (left + protocol.jobs) (loop.gather content) := by
  have extended : world <+: world ++ [protocol] := List.prefix_append ..
  have old : ∀ number < world.length, (loop.gather content).group number = loop.group number :=
    fun number inside => loop.group_gather_of_lt content (ledger.size ▸ inside)
  have new : (loop.gather content).group world.length = content :=
    ledger.size ▸ loop.group_gather content
  have onwardHeld : ∀ debt ∈ protocol.onward, debt.group < world.length := fun debt owed =>
    ledger.group_lt (ledger.live_of_mem (by simp [owed]))
  refine ⟨book, Function.update pending world.length protocol.members, ?_⟩
  constructor
  case size => simp [Loop.gather, ledger.size]
  case punctual => exact ⟨ledger.punctual.sorted, ledger.punctual.upcoming⟩
  case pool => exact ledger.pool
  case pays => exact fun entry member => (ledger.pays entry member).extend extended
  case owing => exact ledger.owing
  case members =>
    intro number other known
    rcases World.concat_cases known with ⟨known, inside⟩ | ⟨rfl, rfl⟩
    · rw [Function.update_of_ne (Nat.ne_of_lt inside)]
      exact ledger.members number other known
    · rw [Function.update_self]
  case unknown =>
    intro number outside
    simp only [List.length_append, List.length_singleton] at outside
    rw [Function.update_of_ne (by omega)]
    exact ledger.unknown number (by omega)
  case valid =>
    intro number other known
    rcases World.concat_cases known with ⟨known, inside⟩ | ⟨rfl, rfl⟩
    · rw [old number inside, Function.update_of_ne (Nat.ne_of_lt inside)]
      exact ledger.valid number other known
    · rw [new, Function.update_self]
      exact valid
  case onward =>
    intro number other known debt owed
    rcases World.concat_cases known with ⟨known, _⟩ | ⟨rfl, rfl⟩
    · obtain ⟨older, bound⟩ := ledger.onward number other known debt owed
      exact ⟨older, bound.trans (World.latest_mono extended debt)⟩
    · exact ⟨onwardHeld debt owed, (deadline debt owed).trans (World.latest_mono extended debt)⟩
  case balance =>
    intro debt
    obtain ⟨waived, before, allowed⟩ := ledger.balance debt
    refine ⟨waived, ?_, fun some => ⟨(allowed some).1, World.latest_eq_top extended (allowed some).2⟩⟩
    rw [World.total_append _ world protocol old, new, protocol.deposit_of_fresh fresh]
    simp only [Multiset.count_add, Protocol.debts, Debt.count_among] at before ⊢
    rcases eq_or_ne debt.group world.length with same | different
    · rw [same, ledger.unknown _ (le_refl _)] at before
      simp only [Finset.notMem_empty, if_false] at before
      simp only [same, Function.update_self, true_and]
      omega
    · simp only [different, false_and, if_false, Function.update_of_ne different]
      omega
  case jobs =>
    rw [World.total_append _ world protocol old, new, protocol.depositJobs_of_fresh fresh]
    rcases ledger.jobs with unknown | ⟨spared, counted, allowed⟩
    · exact .inl (by rw [unknown, top_add])
    · exact .inr ⟨spared, by rw [← counted]; ring, allowed⟩
  case timely =>
    intro debt live
    rcases eq_or_ne debt.group world.length with same | different
    · rw [same, Function.update_self] at live
      obtain ⟨number, member⟩ := debt
      simp only at same
      rw [same, World.latest_eq (List.getElem?_concat_length ..)]
      exact timely member live
    · rw [Function.update_of_ne different] at live
      exact (ledger.timely debt live).trans (World.latest_mono extended debt)
  case unhurried =>
    intro nested number other known
    rcases World.concat_cases known with ⟨known, _⟩ | ⟨rfl, rfl⟩
    · exact ledger.unhurried nested number other known
    · exact unhurried nested
  case patient =>
    intro impatient number other later known
    rcases World.concat_cases known with ⟨known, _⟩ | ⟨rfl, rfl⟩
    · exact ledger.patient impatient number other later known
    · exact patient impatient later
  case common => exact fun number common => World.getElem?_extend extended (ledger.common number common)
  case wakers =>
    exact fun nested waker rest given later time extended' =>
      ledger.wakers nested waker rest given later time (extended.trans extended')

/-- A group changes as some of its members come, and hands out what it no longer keeps. -/
theorem regroup {number : Nat} {protocol : Protocol σ}
    (ledger : Ledger setting world held left loop book pending) (content : Group σ)
    (came : Finset Nat) (held' : Multiset Debt) (paid : ℕ∞) (journal : List (Nat × Event))
    (known : world[number]? = some protocol) (awaited : came ⊆ pending number)
    (valid : protocol.valid loop.clock content (pending number \ came))
    (owed : held + protocol.deposit (loop.group number) =
      held' + protocol.deposit content + Debt.among number came)
    (counted : protocol.depositJobs (loop.group number) = protocol.depositJobs content + paid) :
    ∃ left', left = left' + paid ∧ Sound setting world held' left'
      { loop with groups := loop.groups.setIfInBounds number content, journal } := by
  have inside : number < loop.groups.size :=
    ledger.size ▸ (List.getElem?_eq_some_iff.mp known).1
  have group : Loop.group { loop with groups := loop.groups.setIfInBounds number content, journal } =
      Function.update loop.group number content := loop.group_put content inside
  obtain ⟨others, deposits⟩ := World.total_update Protocol.deposit known loop.group
  obtain ⟨othersJobs, depositsJobs⟩ := World.total_update Protocol.depositJobs known loop.group
  have depositsBefore := deposits (loop.group number)
  have depositsJobsBefore := depositsJobs (loop.group number)
  rw [Function.update_eq_self] at depositsBefore depositsJobsBefore
  have fewer : ∀ other, Function.update pending number (pending number \ came) other ⊆
      pending other := by
    intro other
    rcases eq_or_ne other number with rfl | different
    · rw [Function.update_self]
      exact Finset.sdiff_subset
    · rw [Function.update_of_ne different]
  have rebuild : ∀ left', (left' = ⊤ ∨ ∃ spared : ℕ∞, (book.map fun entry => entry.jobs + 1).sum +
      (protocol.depositJobs content + othersJobs) + spared = left' ∧ (spared ≠ 0 → setting.lenient)) →
      Sound setting world held' left'
        { loop with groups := loop.groups.setIfInBounds number content, journal } := by
    intro left' jobs
    refine ⟨book, Function.update pending number (pending number \ came), { ledger with
        punctual := ⟨ledger.punctual.sorted, ledger.punctual.upcoming⟩
        timely := fun debt live => ledger.timely debt (fewer debt.group live)
        size := ?size, members := ?members, unknown := ?unknown, valid := ?valid, balance := ?balance
        jobs := ?jobs }⟩
    case size => simp [ledger.size]
    case members =>
      exact fun other protocol known => (fewer other).trans (ledger.members other protocol known)
    case unknown =>
      exact fun other outside => Finset.subset_empty.mp (ledger.unknown other outside ▸ fewer other)
    case valid =>
      intro other protocol' known'
      rw [group]
      rcases eq_or_ne other number with rfl | different
      · rw [Function.update_self, Function.update_self]
        rwa [← Option.some.inj (known.symm.trans known')]
      · rw [Function.update_of_ne different, Function.update_of_ne different]
        exact ledger.valid other protocol' known'
    case balance =>
      intro debt
      obtain ⟨waived, before, allowed⟩ := ledger.balance debt
      refine ⟨waived, ?_, allowed⟩
      have moved := congrArg (Multiset.count debt) owed
      rw [depositsBefore] at before
      rw [group, deposits]
      simp only [Multiset.count_add, Debt.count_among] at before moved ⊢
      rcases eq_or_ne debt.group number with same | different
      · rw [same] at before
        simp only [same, Function.update_self, Finset.mem_sdiff, true_and] at moved ⊢
        by_cases coming : debt.member ∈ came
        · simp only [coming, awaited coming, if_true, not_true, and_false, if_false] at before moved ⊢
          omega
        · simp only [coming, if_false, not_false_eq_true, and_true] at before moved ⊢
          omega
      · simp only [different, false_and, if_false, Function.update_of_ne different] at before moved ⊢
        omega
    case jobs =>
      rw [group, depositsJobs]
      exact jobs
  rcases ledger.jobs with unknown | ⟨spared, total, allowed⟩
  · exact ⟨⊤, by rw [unknown, top_add], rebuild ⊤ (.inl rfl)⟩
  · refine ⟨_, ?_, rebuild _ (.inr ⟨spared, rfl, allowed⟩)⟩
    rw [← total, depositsJobsBefore, counted]
    ring

theorem begin {job : Job σ} {ready low : Queue (Job σ)} {timers : List (Timer σ)}
    (journal : List (Nat × Event))
    (ledger : Ledger setting world held left loop book pending)
    (pool : loop.pool = ⟨loop.clock, job.script⟩ ::ₘ { loop with ready, low, timers }.pool)
    (punctual : { loop with ready, low, timers }.Punctual) :
    ∃ debts jobs left', left = left' + (jobs + 1) ∧ (setting.patient → debts ≠ 0) ∧
      Pays setting world debts loop.clock jobs (job.script ()) ∧
      Sound setting world (debts + held) left' { loop with ready, low, timers, journal } := by
  have member : (⟨loop.clock, job.script⟩ : Task σ) ∈ book.map Entry.toTask := by
    rw [← ledger.pool, pool]
    exact Multiset.mem_cons_self ..
  obtain ⟨entry, inside, same⟩ := Multiset.mem_map.mp member
  obtain ⟨rest, rfl⟩ := Multiset.exists_cons_of_mem inside
  have restPool : { loop with ready, low, timers }.pool = rest.map Entry.toTask := by
    have whole := pool.symm.trans ledger.pool
    rw [Multiset.map_cons, same] at whole
    exact Multiset.cons_inj_right _ |>.mp whole
  have rebuild : ∀ left', (left' = ⊤ ∨ ∃ spared : ℕ∞, (rest.map fun entry => entry.jobs + 1).sum +
      world.total Protocol.depositJobs loop.group + spared = left' ∧ (spared ≠ 0 → setting.lenient)) →
      Sound setting world (entry.debts + held) left' { loop with ready, low, timers, journal } := by
    intro left' jobs
    refine ⟨rest, pending, { ledger with
        punctual := ⟨punctual.sorted, punctual.upcoming⟩
        pool := restPool
        pays := fun other member => ledger.pays other (Multiset.mem_cons_of_mem member)
        jobs := jobs
        owing := ?owing, balance := ?balance }⟩
    case owing =>
      exact fun patient other member => ledger.owing patient other (Multiset.mem_cons_of_mem member)
    case balance =>
      intro debt
      obtain ⟨waived, before, allowed⟩ := ledger.balance debt
      refine ⟨waived, ?_, allowed⟩
      have group : Loop.group { loop with ready, low, timers, journal } = loop.group := rfl
      rw [group, ← before, Multiset.map_cons, Multiset.sum_cons]
      simp only [Multiset.count_add]
      omega
  have script : entry.script = job.script := congrArg Task.script same
  have due : entry.due = loop.clock := congrArg Task.due same
  have pays := ledger.pays entry (Multiset.mem_cons_self ..)
  rw [script, due] at pays
  have owing := fun patient => ledger.owing patient entry (Multiset.mem_cons_self ..)
  rcases ledger.jobs with unknown | ⟨spared, total, allowed⟩
  · exact ⟨entry.debts, entry.jobs, ⊤, by rw [unknown, top_add], owing, pays, rebuild ⊤ (.inl rfl)⟩
  · refine ⟨entry.debts, entry.jobs, _, ?_, owing, pays, rebuild _ (.inr ⟨spared, rfl, allowed⟩)⟩
    rw [← total, Multiset.map_cons, Multiset.sum_cons]
    ring

/-- The clock may move to the time of the first task. Nothing that is waited for is late then: a task
owes it, or something that comes no later, and no task pays late. -/
theorem advance {now : Nat} (ledger : Ledger setting world held left loop book pending)
    (idle : ¬setting.nested → held = 0) (before : loop.clock ≤ now)
    (first : ∀ task ∈ loop.pool, now ≤ task.due)
    (pool : { loop with clock := now }.pool = loop.pool)
    (punctual : { loop with clock := now }.Punctual) :
    Sound setting world held left { loop with clock := now } := by
  refine ⟨book, pending, { ledger with
      punctual := punctual
      pool := pool.trans ledger.pool
      valid := ?valid, timely := ?timely, wakers := ?wakers }⟩
  case valid =>
    exact fun number protocol known =>
      protocol.valid_later before (ledger.valid number protocol known)
  case timely =>
    intro debt live
    have known := List.getElem?_eq_getElem (ledger.group_lt live)
    by_cases nested : setting.nested
    · have unhurried := ledger.unhurried nested debt.group _ known debt.member
      have latest : world.latest debt = ⊤ := (World.latest_eq known debt.member).trans unhurried
      rw [latest]
      exact le_top
    · by_cases endless : world.latest debt = ⊤
      · exact endless ▸ le_top
      obtain ⟨owed, someone, waited, bound⟩ := ledger.backed debt live fun _ => endless
      rw [idle nested, add_zero] at someone
      obtain ⟨_, listed, owes⟩ := Multiset.mem_join.mp someone
      obtain ⟨entry, member, rfl⟩ := Multiset.mem_map.mp listed
      have due : now ≤ entry.due := first _ (ledger.pool ▸ Multiset.mem_map_of_mem _ member)
      have paid := (ledger.pays entry member).le_latest nested owed owes (ledger.group_lt waited)
      exact ((Nat.cast_le.mpr due).trans paid).trans bound
  case wakers =>
    exact fun nested waker rest given later time extended after =>
      ledger.wakers nested waker rest given later time extended (before.trans after)

theorem waive {debts : Multiset Debt}
    (ledger : Ledger setting world (debts + held) left loop book pending) (spared : ℕ∞)
    (lenient : setting.lenient) (endless : ∀ debt ∈ debts, world.latest debt = ⊤) :
    Sound setting world held (left + spared) loop := by
  refine ⟨book, pending, { ledger with balance := ?balance, jobs := ?jobs }⟩
  case balance =>
    intro debt
    obtain ⟨waived, before, allowed⟩ := ledger.balance debt
    refine ⟨waived + debts.count debt, ?_, fun some => ⟨lenient, ?_⟩⟩
    · simp only [Multiset.count_add] at before ⊢
      omega
    · rcases eq_or_ne waived 0 with rfl | already
      · rw [Nat.zero_add] at some
        exact endless debt (Multiset.count_ne_zero.mp some)
      · exact (allowed already).2
  case jobs =>
    rcases ledger.jobs with unknown | ⟨before, counted, _⟩
    · exact .inl (by rw [unknown, top_add])
    · exact .inr ⟨before + spared, by rw [← counted, ← add_assoc], fun _ => lenient⟩

theorem wake {waker : Nat} {rest : Unit → Script σ}
    (ledger : Ledger setting world held left loop book pending)
    (woken : ∀ later time, world <+: later → loop.clock ≤ time →
      Pays setting later 0 time ⊤ (rest ())) :
    Sound setting world held left (loop.wake waker rest) := by
  refine ⟨book, pending, { ledger with
      punctual := ⟨ledger.punctual.sorted, ledger.punctual.upcoming⟩
      wakers := ?wakers }⟩
  case wakers =>
    intro nested other rest' given
    simp only [Loop.wake, Loop.rest?, Array.getElem?_setIfInBounds] at given
    split at given
    next same =>
      split at given
      next => exact Option.some.inj given ▸ woken
      next => exact absurd given (by simp)
    next => exact ledger.wakers nested other rest' given

theorem expects (ledger : Ledger setting world held left loop book pending) {number member : Nat}
    {protocol : Protocol σ} (known : world[number]? = some protocol) (awaited : member ∈ pending number) :
    protocol.Expects loop.clock member (loop.group number) (pending number) := by
  refine ⟨ledger.valid number protocol known, awaited, fun other waiting => ?_⟩
  have bound := ledger.timely ⟨number, other⟩ waiting
  rwa [World.latest_eq known] at bound

/-- A member comes to its group. Either the group stays as it was, settled or not, or it is settled now
and what it kept is owed by the one who came. -/
theorem arrive {number member : Nat} {protocol : Protocol σ} {debts : Multiset Debt}
    (ledger : Ledger setting world (debts + {⟨number, member⟩} + held) left loop book pending)
    (content : Group σ) (journal : List (Nat × Event)) (known : world[number]? = some protocol)
    (awaited : member ∈ pending number)
    (valid : protocol.valid loop.clock content ((pending number).erase member))
    (stays : (loop.group number).settled = true → content.settled = true) :
    (content.settled = (loop.group number).settled ∧ Sound setting world (debts + held) left
      { loop with groups := loop.groups.setIfInBounds number content, journal }) ∨
    ((loop.group number).settled = false ∧ content.settled = true ∧
      ∃ left', left = left' + protocol.jobs ∧ Sound setting world (debts + protocol.onward + held) left'
        { loop with groups := loop.groups.setIfInBounds number content, journal }) := by
  have alone : ({member} : Finset Nat) ⊆ pending number := Finset.singleton_subset_iff.mpr awaited
  have one : Debt.among number {member} = {⟨number, member⟩} := rfl
  rw [← Finset.sdiff_singleton_eq_erase] at valid
  by_cases unchanged : content.settled = (loop.group number).settled
  · obtain ⟨left', rfl, sound⟩ := ledger.regroup content {member} (debts + held) 0 journal known alone
      valid (by simp only [Protocol.deposit, unchanged, one]; abel)
      (by simp only [Protocol.depositJobs, unchanged, add_zero])
    rw [add_zero]
    exact .inl ⟨unchanged, sound⟩
  · have was : (loop.group number).settled = false := by
      by_contra already
      rw [Bool.not_eq_false] at already
      exact unchanged ((stays already).trans already.symm)
    have is : content.settled = true := by
      rw [was] at unchanged
      exact Bool.not_eq_false _ ▸ unchanged
    exact .inr ⟨was, is, ledger.regroup content {member} (debts + protocol.onward + held) protocol.jobs
      journal known alone valid
      (by rw [protocol.deposit_of_settled is, protocol.deposit_of_unsettled was, one]; abel)
      (by rw [protocol.depositJobs_of_settled is, protocol.depositJobs_of_unsettled was, zero_add])⟩

end Ledger

end Deferred
