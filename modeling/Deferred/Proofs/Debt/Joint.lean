import Deferred.Proofs.Debt.Arrival
import Deferred.Proofs.Debt.Future
import Deferred.Proofs.Future.Groups

/-! Futures that run side by side. Their common group is settled by one of them, whatever the order in
which they come. What is the same for all parallel combinators: a group whose slots are filled, a common
outcome that is handed on once, and futures that are started one after another. -/

namespace Deferred

variable {σ ε ε' α β γ : Type} {setting : Setting}

/-- The slots of a group as its members come: those of the members to come are empty, and the others hold
what may have been put there by now. -/
structure Group.Filling (size start : Nat) (allowed : Nat → σ → Nat → Prop) (now : Nat)
    (content : Group σ) (pending : Finset Nat) : Prop where
  length : content.slots.length = size
  remaining : content.remaining = pending.card
  empty : ∀ index ∈ pending, content.slots[index]? = some none
  filled : ∀ index < size, index ∉ pending → ∃ value delay, allowed index value delay ∧
    start + delay ≤ now ∧ content.slots[index]? = some (some value)

namespace Group.Filling

variable {size start now : Nat} {allowed : Nat → σ → Nat → Prop} {content : Group σ}
  {pending : Finset Nat}

theorem ofSize (size start now : Nat) (allowed : Nat → σ → Nat → Prop) :
    Filling size start allowed now (.ofSize size) (Finset.range size) where
  length := List.length_replicate
  remaining := (Finset.card_range size).symm
  empty _ member := List.getElem?_replicate_of_lt (Finset.mem_range.mp member)
  filled _ inside outside := absurd (Finset.mem_range.mpr inside) outside

theorem later {now' : Nat} (filling : Filling size start allowed now content pending)
    (before : now ≤ now') : Filling size start allowed now' content pending := by
  refine { filling with filled := fun index inside came => ?_ }
  obtain ⟨value, delay, allows, past, found⟩ := filling.filled index inside came
  exact ⟨value, delay, allows, past.trans before, found⟩

theorem fill {index delay : Nat} {value : σ}
    (filling : Filling size start allowed (start + delay) content pending) (awaited : index ∈ pending)
    (allows : allowed index value delay) :
    Filling size start allowed (start + delay) (content.fill index value) (pending.erase index) := by
  have inside : index < content.slots.length :=
    (List.getElem?_eq_some_iff.mp (filling.empty index awaited)).1
  constructor
  case length => simp [Group.fill, filling.length]
  case remaining => rw [Group.fill, filling.remaining, Finset.card_erase_of_mem awaited]
  case empty =>
    intro other waiting
    obtain ⟨different, waiting⟩ := Finset.mem_erase.mp waiting
    rw [Group.fill, List.getElem?_set_ne different.symm]
    exact filling.empty other waiting
  case filled =>
    intro other within came
    rcases eq_or_ne other index with rfl | different
    · exact ⟨value, delay, allows, le_refl _, by simp [Group.fill, inside]⟩
    · rw [Group.fill, List.getElem?_set_ne different.symm]
      exact filling.filled other within fun waiting => came (Finset.mem_erase.mpr ⟨different, waiting⟩)

theorem exists_stored [Storable β σ] (slots : List (Option σ)) {fits : Nat → β → Prop}
    (full : ∀ index < slots.length, ∃ value, fits index value ∧
      slots[index]? = some (some (store value))) :
    ∃ values : List β, slots = values.map (fun value => some (store value)) ∧
      ∀ index < slots.length, ∃ value, values[index]? = some value ∧ fits index value := by
  induction slots generalizing fits with
  | nil => exact ⟨[], rfl, fun index inside => absurd inside (Nat.not_lt_zero index)⟩
  | cons slot slots ih =>
    obtain ⟨first, fitting, found⟩ := full 0 (Nat.zero_lt_succ _)
    obtain ⟨values, rfl, rest⟩ := ih fun index inside => full (index + 1) (Nat.succ_lt_succ inside)
    refine ⟨first :: values, ?_, fun index inside => ?_⟩
    · rw [List.map_cons, ← Option.some.inj found]
    · cases index with
      | zero => exact ⟨first, rfl, fitting⟩
      | succ index => exact rest index (Nat.lt_of_succ_lt_succ inside)

theorem values_eq [Storable β σ] {fills : Nat → β → Nat → Prop}
    (filling : Filling size start (fun index value delay => ∃ found, fills index found delay ∧
      value = store found) now content ∅) :
    ∃ (values : List β) (delays : Nat → Nat), content.values.filterMap load? = values ∧
      values.length = size ∧ ∀ index < size, ∃ value, values[index]? = some value ∧
        fills index value (delays index) ∧ start + delays index ≤ now := by
  have full : ∀ index < content.slots.length, ∃ value : β,
      (∃ delay, fills index value delay ∧ start + delay ≤ now) ∧
        content.slots[index]? = some (some (store value)) := by
    intro index inside
    obtain ⟨_, delay, ⟨value, fills, rfl⟩, past, found⟩ :=
      filling.filled index (filling.length ▸ inside) (Finset.notMem_empty index)
    exact ⟨value, ⟨delay, fills, past⟩, found⟩
  obtain ⟨values, slots, fits⟩ := exists_stored content.slots full
  have delayed : ∀ index, ∃ delay, index < size → ∃ value, values[index]? = some value ∧
      fills index value delay ∧ start + delay ≤ now := by
    intro index
    by_cases inside : index < size
    · obtain ⟨value, found, delay, fits⟩ := fits index (filling.length.symm ▸ inside)
      exact ⟨delay, fun _ => ⟨value, found, fits⟩⟩
    · exact ⟨0, fun within => absurd within inside⟩
  choose delays fits using delayed
  refine ⟨values, delays, ?_, ?_, fits⟩
  · simp [Group.values, slots, List.filterMap_map]
  · rw [← filling.length, slots, List.length_map]

end Group.Filling

def Protocol.joint (members : Finset Nat) (debt : Debt) (jobs deadline : ℕ∞) (latest : Nat → ℕ∞)
    (patient : Prop) (unsettled : Nat → Group σ → Finset Nat → Prop)
    (later : ∀ {now later content pending}, now ≤ later → unsettled now content pending →
      unsettled later content pending)
    (waits : ∀ {now content pending}, unsettled now content pending →
      ∃ member ∈ pending, latest member ≤ deadline) : Protocol σ where
  members
  onward := {debt}
  jobs
  latest
  deadline
  valid now content pending := (content.settled = true → patient → pending = ∅) ∧
    (content.settled = false → unsettled now content pending)
  valid_later before valid := ⟨valid.1, fun undecided => later before (valid.2 undecided)⟩
  waits valid undecided _ := waits (valid.2 undecided)
  jobs_eq none := absurd none (Multiset.singleton_ne_zero debt)

namespace Parallel

theorem changes_settled {group : Nat} {content : Group σ} {handOn : Unit → Script σ}
    {after : Bool → Script σ} (settled : content.settled = true) :
    (handOnce group handOn after).Changes group content content (after false) :=
  (alters_settled settled (.refl _)).changes

theorem changes_unsettled {group : Nat} {content : Group σ} {handOn : Unit → Script σ}
    {after : Bool → Script σ} (unsettled : content.settled = false) :
    (handOnce group handOn after).Changes group content content.settle
      ((handOn ()).andThen (after true)) :=
  (alters_unsettled unsettled).changes

def Idle (setting : Setting) (script : Script σ) : Prop :=
  ∀ (world : World σ) (now : Nat), Pays setting world 0 now 0 script

theorem Idle.done : Idle setting (.done : Script σ) :=
  fun _ _ => .done

theorem Idle.record (event : Event) : Idle setting (.record event .done : Script σ) :=
  fun _ _ => .record .done

theorem Idle.andThen {world : World σ} {debts : Multiset Debt} {now : Nat} {jobs : ℕ∞}
    {script last : Script σ} (idle : Idle setting last)
    (pays : Pays setting world debts now jobs script) :
    Pays setting world debts now jobs (script.andThen last) := by
  have paid : Pays setting world (debts + 0) now (jobs + 0) (script.andThen last) :=
    pays.andThen (fun _ debt owed => absurd owed (Multiset.notMem_zero debt)) fun later time _ _ _ =>
      idle later time
  rwa [add_zero, add_zero] at paid

section Arrival

variable {patient : Prop} {unsettled : Group σ → Finset Nat → Prop} {protocol : Protocol σ}
  {world : World σ} {now number member : Nat} {content after : Group σ} {pending : Finset Nat}
  {script rest : Script σ}

/-- A member that comes too late changes nothing that matters. -/
theorem arrives_late
    (shape : ∀ content pending, protocol.valid now content pending ↔
      (content.settled = true → patient → pending = ∅) ∧
        (content.settled = false → unsettled content pending))
    (expects : protocol.Expects now member content pending)
    (settled : content.settled = true) (still : after.settled = true)
    (changes : script.Changes number content after rest) (idle : Idle setting rest) :
    Arrives setting world protocol 0 now 0 number member content pending script := by
  refine .waits after rest changes ((shape ..).mpr ⟨fun _ patient => ?_, fun undecided => ?_⟩)
    (still.trans settled.symm) (idle world now)
  · rw [((shape ..).mp expects.valid).1 settled patient]
    rfl
  · rw [still] at undecided
    exact absurd undecided (by simp)

theorem arrives_settling
    (shape : ∀ content pending, protocol.valid now content pending ↔
      (content.settled = true → patient → pending = ∅) ∧
        (content.settled = false → unsettled content pending))
    (undecided : content.settled = false) (settled : after.settled = true)
    (last : patient → pending.erase member = ∅)
    (changes : script.Changes number content after rest)
    (pays : Pays setting world protocol.onward now protocol.jobs rest) :
    Arrives setting world protocol 0 now 0 number member content pending script := by
  refine .settles after rest changes ((shape ..).mpr ⟨fun _ => last, fun still => ?_⟩) undecided
    settled ?_
  · rw [settled] at still
    exact absurd still (by simp)
  · rwa [zero_add, zero_add]

theorem arrives_waiting
    (shape : ∀ content pending, protocol.valid now content pending ↔
      (content.settled = true → patient → pending = ∅) ∧
        (content.settled = false → unsettled content pending))
    (undecided : content.settled = false) (still : after.settled = false)
    (waits : unsettled after (pending.erase member))
    (changes : script.Changes number content after rest) (idle : Idle setting rest) :
    Arrives setting world protocol 0 now 0 number member content pending script := by
  refine .waits after rest changes ((shape ..).mpr ⟨fun settled => ?_, fun _ => waits⟩)
    (still.trans undecided.symm) (idle world now)
  rw [still] at settled
  exact absurd settled (by simp)

end Arrival

/-- If jobs make turns, nothing is promised about times. -/
def Timeless (promise : Promise ε α) : Prop :=
  promise.latest = ⊤ ∧ ∀ outcome delay delay', promise.may outcome delay → delay ≤ delay' →
    promise.may outcome delay'

theorem pays_started {future : Future σ ε α} {promise : Promise ε α} {world : World σ} {debt : Debt}
    {start now : Nat} {jobs : ℕ∞} {next : Except ε α → Script σ} (keeps : future.Keeps setting promise)
    (timeless : setting.nested → Timeless promise) (after : start ≤ now)
    (instant : setting.nested ∨ now = start) (latest : world.latest debt = start + promise.latest)
    (arrives : ∀ outcome delay, promise.may outcome delay →
      Pays setting world {debt} (start + delay) jobs (next outcome)) :
    Pays setting world {debt} now (promise.jobs + jobs) (future.run next) := by
  refine keeps ?_ fun outcome delay may => ?_
  · rw [latest]
    rcases instant with nested | rfl
    · rw [(timeless nested).1, add_top]
      exact le_top
    · exact le_refl _
  · obtain ⟨gone, rfl⟩ := Nat.exists_eq_add_of_le after
    rw [add_assoc]
    apply arrives outcome (gone + delay)
    rcases instant with nested | same
    · exact (timeless nested).2 outcome delay _ may (Nat.le_add_left ..)
    · rwa [Nat.left_eq_add.mp same.symm, zero_add]

theorem pays_startAll {promises : Nat → Promise ε α} {size start number : Nat} {world : World σ}
    {protocol : Protocol σ} {arrive : Nat → Except ε α → Script σ}
    (known : world[number]? = some protocol)
    (latest : ∀ index, protocol.latest index = start + (promises index).latest)
    (timeless : setting.nested → ∀ index, Timeless (promises index))
    (arrives : ∀ later, world <+: later → ∀ index < size, ∀ outcome delay,
      (promises index).may outcome delay →
        Pays setting later {⟨number, index⟩} (start + delay) 0 (arrive index outcome))
    (futures : List (Future σ ε α)) (index : Nat) (within : index + futures.length ≤ size)
    (keeps : ∀ (offset : Nat) (future : Future σ ε α), futures[offset]? = some future →
      future.Keeps setting (promises (index + offset)))
    {now : Nat} (after : start ≤ now) (instant : setting.nested ∨ now = start)
    {later : World σ} (extended : world <+: later) :
    Pays setting later ((List.range' index futures.length).map (Debt.mk number)) now
      ((List.range' index futures.length).map fun index => (promises index).jobs).sum
      (startAll arrive index futures) := by
  induction futures generalizing index now later with
  | nil => exact .done
  | cons future futures ih =>
    have latest' : ∀ index, later.latest ⟨number, index⟩ = start + (promises index).latest := fun index =>
      (World.latest_eq (World.getElem?_extend extended known) index).trans (latest index)
    have room : index < size := by
      rw [List.length_cons] at within
      omega
    have first : Pays setting later {⟨number, index⟩} now ((promises index).jobs + 0)
        (future.run (arrive index)) :=
      pays_started (keeps 0 future rfl) (fun nested => timeless nested index) after instant
        (latest' index) (arrives later extended index room)
    have rest : ∀ further time, later <+: further → now ≤ time → (setting.nested ∨ time = now) →
        Pays setting further ((List.range' (index + 1) futures.length).map (Debt.mk number)) time
          ((List.range' (index + 1) futures.length).map fun index => (promises index).jobs).sum
          (startAll arrive (index + 1) futures) := by
      intro further time extended' before same
      refine ih (index + 1) ?_ ?_ (after.trans before) ?_ (extended.trans extended')
      · rw [List.length_cons] at within
        omega
      · intro offset other found
        rw [add_assoc, add_comm 1]
        exact keeps (offset + 1) other found
      · rcases same with nested | rfl
        · exact .inl nested
        · exact instant
    rw [add_zero] at first
    have paid := first.andThen (fun simple debt owed => ?_) rest
    · rw [List.length_cons, List.range'_succ, List.map_cons, List.map_cons, List.sum_cons,
        ← Multiset.cons_coe, ← Multiset.singleton_add]
      exact paid
    · obtain ⟨other, _, rfl⟩ := List.mem_map.mp (Multiset.mem_coe.mp owed)
      rw [latest', instant.resolve_left simple]
      exact le_self_add

theorem debts_range (protocol : Protocol σ) (group size : Nat)
    (members : protocol.members = Finset.range size) :
    protocol.debts group = ((List.range' 0 size).map (Debt.mk group) : Multiset Debt) := by
  rw [Protocol.debts, Debt.among, members, ← List.range_eq_range']
  rfl

def jobsOf (promises : Nat → Promise ε α) (size : Nat) : ℕ∞ :=
  ((List.range' 0 size).map fun index => (promises index).jobs).sum

theorem pays_gather (protocol : Protocol σ) {world : World σ} {debt : Debt} {now : Nat}
    {jobs count : ℕ∞} {content : Group σ} {next : Nat → Script σ} (onward : protocol.onward = {debt})
    (owes : protocol.jobs = jobs) (unsettled : content.settled = false)
    (patient : setting.patient → ∀ now content pending, protocol.valid now content pending →
      content.settled = true → pending = ∅)
    (unhurried : setting.nested → ∀ member, protocol.latest member = ⊤)
    (valid : protocol.valid now content protocol.members)
    (deadline : protocol.deadline ≤ world.latest debt)
    (pays : ∀ later, world <+: later → Pays setting (later ++ [protocol]) (protocol.debts later.length)
      now count (next later.length)) :
    Pays setting world {debt} now (count + jobs) (.gather content next) := by
  have owing : protocol.onward ≠ 0 := onward ▸ Multiset.singleton_ne_zero debt
  have gathered : Pays setting world (0 + protocol.onward) now (count + protocol.jobs)
      (.gather content next) := by
    refine .gather protocol (fun settled => ?_) (fun impatient => ⟨owing, patient impatient⟩) unhurried
      valid (fun other owed => ?_) fun later extended => ?_
    · rw [settled] at unsettled
      exact absurd unsettled (by simp)
    · rw [onward, Multiset.mem_singleton] at owed
      exact owed ▸ deadline
    · rw [zero_add]
      exact pays later extended
  rwa [zero_add, onward, owes] at gathered

end Parallel

end Deferred
