import Deferred.Proofs.Debt.Ledger

/-! The books of a loop at the start: nothing is owed to the groups that there are, until a group is
placed behind them that waits for one member. -/

namespace Deferred

variable {σ : Type}

theorem Loop.Punctual.sound {setting : Setting} {loop : Loop σ} {book : Multiset (Entry σ)} {left : ℕ∞}
    (punctual : loop.Punctual) (pool : loop.pool = book.map Entry.toTask)
    (pays : ∀ entry ∈ book, Pays setting (List.replicate loop.groups.size .free) 0 entry.due entry.jobs
      (entry.script ()))
    (debts : ∀ entry ∈ book, entry.debts = 0) (patient : setting.patient → book = 0)
    (root : setting.patient → loop.groups.size ≤ setting.root)
    (jobs : left = ⊤ ∨ (book.map fun entry => entry.jobs + 1).sum = left)
    (common : ∀ number, setting.common number → number < loop.groups.size)
    (wakers : setting.nested → ∀ waker rest, loop.rest? waker = some rest → ∀ later time,
      List.replicate loop.groups.size .free <+: later → loop.clock ≤ time →
        Pays setting later 0 time ⊤ (rest ())) :
    Sound setting (List.replicate loop.groups.size .free) 0 left loop := by
  have free : ∀ {number : Nat} {protocol : Protocol σ},
      (List.replicate loop.groups.size .free)[number]? = some protocol → protocol = .free := by
    intro number protocol known
    exact List.eq_of_mem_replicate (List.mem_of_getElem? known)
  have none : (book.map Entry.debts).sum = 0 := by
    rw [Multiset.map_congr rfl debts]
    simp
  refine ⟨book, fun _ => ∅, ?_⟩
  constructor
  case size => exact List.length_replicate
  case punctual => exact punctual
  case pool => exact pool
  case pays => exact fun entry member => debts entry member ▸ pays entry member
  case owing =>
    intro impatient entry member
    rw [patient impatient] at member
    exact absurd member (Multiset.notMem_zero entry)
  case members => exact fun _ _ _ => Finset.empty_subset _
  case unknown => exact fun _ _ => rfl
  case valid => exact fun number protocol known => free known ▸ trivial
  case onward =>
    intro number protocol known debt owed
    rw [free known] at owed
    exact absurd owed (Multiset.notMem_zero debt)
  case balance =>
    intro debt
    refine ⟨0, ?_, fun some => absurd rfl some⟩
    rw [none, World.total_eq_zero fun number protocol known => by
      rw [free known, Protocol.deposit, Protocol.free, Protocol.unawaited, ite_self]]
    simp
  case jobs =>
    apply jobs.imp_right
    intro counted
    refine ⟨0, ?_, fun some => absurd rfl some⟩
    rw [World.total_eq_zero fun number protocol known => by
      rw [free known, Protocol.depositJobs, Protocol.free, Protocol.unawaited, ite_self], add_zero,
      add_zero, counted]
  case timely => exact fun debt live => absurd live (Finset.notMem_empty _)
  case unhurried =>
    exact fun _ number protocol known _ => by rw [free known, Protocol.free, Protocol.unawaited]
  case patient =>
    intro impatient number protocol later known
    have inside := (List.getElem?_eq_some_iff.mp known).1
    have bound := root impatient
    rw [List.length_replicate] at inside
    omega
  case common =>
    exact fun number common' => List.getElem?_replicate_of_lt (common number common')
  case wakers => exact wakers

theorem Loop.Vacant.sound {setting : Setting} {loop : Loop σ} (vacant : loop.Vacant)
    (simple : ¬setting.nested) (root : setting.patient → loop.groups.size ≤ setting.root)
    (common : ∀ number, setting.common number → number < loop.groups.size) :
    Sound setting (List.replicate loop.groups.size .free) 0 (0 : ℕ∞) loop := by
  have empty : loop.pool = (0 : Multiset (Entry σ)).map Entry.toTask := vacant.pool_eq
  refine vacant.punctual.sound empty ?_ ?_ (fun _ => rfl) root (.inr rfl) common
    fun nested => absurd nested simple
  · exact fun entry member => absurd member (Multiset.notMem_zero entry)
  · exact fun entry member => absurd member (Multiset.notMem_zero entry)

def World.placed (number : Nat) (protocol : Protocol σ) : World σ :=
  List.replicate number .free ++ [protocol]

theorem World.placed_getElem? (number : Nat) (protocol : Protocol σ) :
    (placed number protocol)[number]? = some protocol := by
  rw [placed, List.getElem?_append_right (by simp)]
  simp

theorem World.placed_getElem?_of_lt {number other : Nat} (protocol : Protocol σ)
    (older : other < number) : (placed number protocol)[other]? = some .free := by
  rw [placed, List.getElem?_append_left (by simpa), List.getElem?_replicate_of_lt older]

theorem Sound.placed {setting : Setting} {loop : Loop σ} {left : ℕ∞} {content : Group σ}
    (sound : Sound setting (List.replicate loop.groups.size .free) 0 left loop)
    (protocol : Protocol σ) (none : protocol.onward = 0)
    (valid : protocol.valid loop.clock content protocol.members)
    (timely : ∀ member ∈ protocol.members, (loop.clock : ℕ∞) ≤ protocol.latest member)
    (root : setting.patient → loop.groups.size ≤ setting.root)
    (unhurried : setting.nested → ∀ member, protocol.latest member = ⊤) :
    Sound setting (.placed loop.groups.size protocol) (protocol.debts loop.groups.size + 0) left
      (loop.gather content) := by
  obtain ⟨book, pending, ledger⟩ := sound
  have length : (List.replicate loop.groups.size (.free : Protocol σ)).length = loop.groups.size :=
    List.length_replicate
  have owed : Ledger setting (List.replicate loop.groups.size .free) (0 + protocol.onward + 0) left loop
      book pending := by rwa [none, add_zero, add_zero]
  have gathered := owed.gather protocol (fun _ => none)
    (fun impatient later => absurd (root impatient) (by omega)) unhurried valid
    (fun debt owed => absurd (none ▸ owed) (Multiset.notMem_zero debt)) timely
  rwa [length, zero_add, protocol.jobs_eq none, add_zero left] at gathered

theorem Sound.place {setting : Setting} {loop : Loop σ} {left : ℕ∞} {content : Group σ}
    (sound : Sound setting (List.replicate loop.groups.size .free) 0 left loop)
    (protocol : Protocol σ) (alone : protocol.members = {0}) (none : protocol.onward = 0)
    (valid : protocol.valid loop.clock content {0}) (timely : (loop.clock : ℕ∞) ≤ protocol.latest 0)
    (root : setting.patient → setting.root = loop.groups.size)
    (unhurried : setting.nested → ∀ member, protocol.latest member = ⊤) :
    Sound setting (.placed loop.groups.size protocol) ({⟨loop.groups.size, 0⟩} + 0) left
      (loop.gather content) := by
  have placed := sound.placed protocol none (alone ▸ valid)
    (fun member inside => by
      rw [alone, Finset.mem_singleton] at inside
      exact inside ▸ timely)
    (fun impatient => ge_of_eq (root impatient)) unhurried
  rw [Protocol.debts, alone] at placed
  exact placed

theorem pays_gather_free {setting : Setting} {world : World σ} {debts : Multiset Debt} {now : Nat}
    {jobs : ℕ∞} {content : Group σ} {next : Nat → Script σ} (impatient : ¬setting.patient)
    (pays : ∀ later, world <+: later →
      Pays setting (later ++ [.free]) debts now jobs (next later.length)) :
    Pays setting world debts now jobs (.gather content next) := by
  have gathered : Pays setting world (debts + (.free : Protocol σ).onward) now
      (jobs + (.free : Protocol σ).jobs) (.gather content next) := by
    refine .gather .free (fun _ => rfl) (fun patient => absurd patient impatient) (fun _ _ => rfl) trivial
      (fun debt owed => absurd owed (Multiset.notMem_zero debt)) fun later extended => ?_
    have none : (Protocol.free : Protocol σ).debts later.length = 0 := rfl
    rw [none, add_zero]
    exact pays later extended
  rwa [Protocol.free, Protocol.unawaited, add_zero, add_zero] at gathered

theorem Sound.gather_free {setting : Setting} {world : World σ} {held : Multiset Debt} {left : ℕ∞}
    {loop : Loop σ} (sound : Sound setting world held left loop) (impatient : ¬setting.patient)
    (content : Group σ) : Sound setting (world ++ [.free]) held left (loop.gather content) := by
  obtain ⟨book, pending, ledger⟩ := sound
  have owed : Ledger setting world (0 + (Protocol.free : Protocol σ).onward + held) left loop book
      pending := by rwa [Protocol.free, Protocol.unawaited, add_zero, zero_add]
  have gathered := @Ledger.gather _ _ _ _ _ _ _ _ _ content .free owed (fun _ => rfl)
    (fun patient => absurd patient impatient) (fun _ _ => rfl) trivial
    (fun debt owing => absurd owing (Multiset.notMem_zero debt))
    fun member inside => absurd inside (Finset.notMem_empty member)
  have none : (Protocol.free : Protocol σ).debts world.length = 0 := rfl
  rwa [none, Protocol.free, Protocol.unawaited, add_zero, zero_add, add_zero] at gathered

end Deferred
