import Deferred.Proofs.Loop.Pool
import Mathlib.Algebra.BigOperators.Group.Finset.Basic
import Mathlib.Data.ENat.Basic
import Mathlib.Tactic.Ring

/-! Outcomes that are owed. Whoever is given a continuation owes it one call, and a call goes to a
place in a group of the loop. Debts are never copied: a job that hands a continuation on hands the debt
on with it, and a group that waits for several outcomes keeps the debt of its own continuation until it
is settled. Nor are they dropped, unless it is allowed to waive those that are never due. `Pays` says
that a script pays what it owes, now or in the jobs that it submits, and by when, and how many jobs that
takes. -/

namespace Deferred

variable {σ : Type}

/-- An outcome that is owed to a place in a group. -/
structure Debt where
  group : Nat
  member : Nat
deriving DecidableEq

def Debt.among (group : Nat) (members : Finset Nat) : Multiset Debt :=
  members.val.map (Debt.mk group)

theorem Debt.mem_among {group member : Nat} {members : Finset Nat} :
    ⟨group, member⟩ ∈ Debt.among group members ↔ member ∈ members := by
  simp [among]

theorem Debt.count_among (group : Nat) (members : Finset Nat) (debt : Debt) :
    (Debt.among group members).count debt =
      if debt.group = group ∧ debt.member ∈ members then 1 else 0 := by
  have nodup : (Debt.among group members).Nodup :=
    members.nodup.map fun first second same => (Debt.mk.inj same).2
  rw [Multiset.count_eq_of_nodup nodup]
  refine if_congr ?_ rfl rfl
  cases debt
  simp [among, and_comm, eq_comm]

/-- What the members of a group have in common: what may have become of the group while some of its
members are still to come, and the debt that it pays once it is settled. -/
structure Protocol (σ : Type) where
  members : Finset Nat
  /-- What is owed to the one who waits for the group. -/
  onward : Multiset Debt
  /-- The jobs that paying it takes. -/
  jobs : ℕ∞
  /-- By when a member arrives. -/
  latest : Nat → ℕ∞
  /-- By when the group is settled. -/
  deadline : ℕ∞
  /-- What the group may look like at some time, given the members that are still to come. -/
  valid : Nat → Group σ → Finset Nat → Prop
  valid_later : ∀ {now later content pending}, now ≤ later → valid now content pending →
    valid later content pending
  /-- A group that is not settled waits for somebody. -/
  waits : ∀ {now content pending}, valid now content pending → content.settled = false →
    onward ≠ 0 → ∃ member ∈ pending, latest member ≤ deadline
  jobs_eq : onward = 0 → jobs = 0

namespace Protocol

def unawaited (members : Finset Nat) (latest : Nat → ℕ∞) (valid : Nat → Group σ → Finset Nat → Prop)
    (valid_later : ∀ {now later content pending}, now ≤ later → valid now content pending →
      valid later content pending) : Protocol σ where
  members
  onward := 0
  jobs := 0
  latest
  deadline := ⊤
  valid
  valid_later
  waits _ _ owing := absurd rfl owing
  jobs_eq _ := rfl

def free : Protocol σ :=
  unawaited ∅ (fun _ => ⊤) (fun _ _ _ => True) fun _ _ => trivial

def debts (protocol : Protocol σ) (group : Nat) : Multiset Debt :=
  Debt.among group protocol.members

/-- What a group still keeps of the debt to its own continuation. -/
def deposit (protocol : Protocol σ) (content : Group σ) : Multiset Debt :=
  if content.settled then 0 else protocol.onward

def depositJobs (protocol : Protocol σ) (content : Group σ) : ℕ∞ :=
  if content.settled then 0 else protocol.jobs

theorem deposit_of_settled (protocol : Protocol σ) {content : Group σ}
    (settled : content.settled = true) : protocol.deposit content = 0 := if_pos settled

theorem deposit_of_unsettled (protocol : Protocol σ) {content : Group σ}
    (unsettled : content.settled = false) : protocol.deposit content = protocol.onward :=
  if_neg (Bool.eq_false_iff.mp unsettled)

theorem depositJobs_of_settled (protocol : Protocol σ) {content : Group σ}
    (settled : content.settled = true) : protocol.depositJobs content = 0 := if_pos settled

theorem depositJobs_of_unsettled (protocol : Protocol σ) {content : Group σ}
    (unsettled : content.settled = false) : protocol.depositJobs content = protocol.jobs :=
  if_neg (Bool.eq_false_iff.mp unsettled)

/-- A new group keeps all of its debt, unless nobody waits for it. -/
theorem deposit_of_fresh (protocol : Protocol σ) {content : Group σ}
    (fresh : content.settled = true → protocol.onward = 0) :
    protocol.deposit content = protocol.onward := by
  unfold deposit
  split
  next settled => exact (fresh settled).symm
  next => rfl

theorem depositJobs_of_fresh (protocol : Protocol σ) {content : Group σ}
    (fresh : content.settled = true → protocol.onward = 0) :
    protocol.depositJobs content = protocol.jobs := by
  unfold depositJobs
  split
  next settled => exact (protocol.jobs_eq (fresh settled)).symm
  next => rfl

def Patient (protocol : Protocol σ) : Prop :=
  protocol.onward ≠ 0 ∧ ∀ now content pending, protocol.valid now content pending →
    content.settled = true → pending = ∅

structure Expects (protocol : Protocol σ) (now member : Nat) (content : Group σ)
    (pending : Finset Nat) : Prop where
  valid : protocol.valid now content pending
  awaited : member ∈ pending
  timely : ∀ other ∈ pending, (now : ℕ∞) ≤ protocol.latest other

end Protocol

abbrev World (σ : Type) : Type :=
  List (Protocol σ)

def World.latest (world : World σ) (debt : Debt) : ℕ∞ :=
  match world[debt.group]? with
  | some protocol => protocol.latest debt.member
  | none => 0

theorem World.latest_eq {world : World σ} {group : Nat} {protocol : Protocol σ}
    (known : world[group]? = some protocol) (member : Nat) :
    world.latest ⟨group, member⟩ = protocol.latest member := by
  simp only [World.latest, known]

theorem World.getElem?_extend {world later : World σ} (extended : world <+: later) {group : Nat}
    {protocol : Protocol σ} (known : world[group]? = some protocol) :
    later[group]? = some protocol := by
  obtain ⟨more, rfl⟩ := extended
  rw [List.getElem?_append_left (List.getElem?_eq_some_iff.mp known).1]
  exact known

theorem World.latest_extend {world later : World σ} (extended : world <+: later) {debt : Debt}
    (known : debt.group < world.length) : later.latest debt = world.latest debt := by
  have same := World.getElem?_extend extended (List.getElem?_eq_getElem known)
  simp only [World.latest, same, List.getElem?_eq_getElem known]

theorem World.latest_mono {world later : World σ} (extended : world <+: later) (debt : Debt) :
    world.latest debt ≤ later.latest debt := by
  rcases Nat.lt_or_ge debt.group world.length with known | unknown
  · exact le_of_eq (World.latest_extend extended known).symm
  · simp only [World.latest, List.getElem?_eq_none unknown]
    exact zero_le

theorem World.latest_eq_top {world later : World σ} (extended : world <+: later) {debt : Debt}
    (endless : world.latest debt = ⊤) : later.latest debt = ⊤ :=
  top_le_iff.mp (endless ▸ World.latest_mono extended debt)

theorem World.concat_cases {world : World σ} {protocol other : Protocol σ} {number : Nat}
    (known : (world ++ [protocol])[number]? = some other) :
    (world[number]? = some other ∧ number < world.length) ∨
      (number = world.length ∧ other = protocol) := by
  rcases Nat.lt_or_ge number world.length with inside | outside
  · rw [List.getElem?_append_left inside] at known
    exact .inl ⟨known, inside⟩
  · rw [List.getElem?_append_right outside, List.getElem?_singleton] at known
    split at known
    next none => exact .inr ⟨by omega, (Option.some.inj known).symm⟩
    next => exact absurd known (by simp)

/-- What the scripts of a loop may rely on. -/
structure Setting where
  /-- The bound that the host sets on searches. -/
  bound : Nat
  /-- Whether jobs may make turns of the loop that they run on. Nothing is said of times then. -/
  nested : Prop
  /-- Whether no group is settled before its last member has come and no job runs that owes nothing. -/
  patient : Prop
  /-- Whether debts that are never due may be waived. -/
  lenient : Prop := False
  /-- The groups that are nobody's in particular. -/
  common : Nat → Prop
  /-- The group that waits for everything. Later groups wait for parts of it. -/
  root : Nat

/-- A script that finds a group as `before` first of all makes it `after`, and goes on with `rest`. -/
def Script.Changes (script : Script σ) (group : Nat) (before after : Group σ) (rest : Script σ) :
    Prop :=
  ∀ (host : Host σ) (loop : Loop σ), group < loop.groups.size → loop.group group = before →
    ∃ journal, script.run host loop =
      rest.run host { loop with groups := loop.groups.setIfInBounds group after, journal }

/-- A script, run at the time `now`, pays `debts`, itself or through the jobs that it submits, and takes
`jobs` jobs to do so, not counting those for the debts of groups that it helps to settle. -/
inductive Pays (setting : Setting) : World σ → Multiset Debt → Nat → ℕ∞ → Script σ → Prop
  | done {world now} : Pays setting world 0 now 0 .done
  | stuck {world debts now} (nested : setting.nested) : Pays setting world debts now ⊤ .stuck
  /-- With a debt that is never paid the jobs fall away that would follow. -/
  | waive {world : World σ} {debts now jobs script} (waived : Multiset Debt) (spared : ℕ∞)
      (lenient : setting.lenient) (endless : ∀ debt ∈ waived, world.latest debt = ⊤)
      (pays : Pays setting world debts now jobs script) :
      Pays setting world (debts + waived) now (jobs + spared) script
  /-- Nothing more is said of the number of jobs. -/
  | forget {world debts now jobs script} (nested : setting.nested)
      (pays : Pays setting world debts now jobs script) : Pays setting world debts now ⊤ script
  | submit {world debts debts' now jobs jobs' lane job next} (owing : setting.patient → debts ≠ 0)
      (handed : Pays setting world debts (Lane.due now lane) jobs (job ()))
      (pays : Pays setting world debts' now jobs' next) :
      Pays setting world (debts + debts') now (jobs + 1 + jobs') (.submit lane job next)
  | now {world debts now jobs next} (pays : Pays setting world debts now jobs (next now)) :
      Pays setting world debts now jobs (.now next)
  | record {world debts now jobs event next} (pays : Pays setting world debts now jobs next) :
      Pays setting world debts now jobs (.record event next)
  | review {world debts now jobs next} (pays : ∀ journal, Pays setting world debts now jobs (next journal)) :
      Pays setting world debts now jobs (.review next)
  /-- The debt to whoever waits for the new group becomes debts of its members. -/
  | gather {world : World σ} {debts now jobs next} {group : Group σ} (protocol : Protocol σ)
      (fresh : group.settled = true → protocol.onward = 0)
      (patient : setting.patient → protocol.Patient)
      (unhurried : setting.nested → ∀ member, protocol.latest member = ⊤)
      (valid : protocol.valid now group protocol.members)
      (deadline : ∀ debt ∈ protocol.onward, protocol.deadline ≤ world.latest debt)
      (pays : ∀ later, world <+: later → Pays setting (later ++ [protocol])
        (debts + protocol.debts later.length) now jobs (next later.length)) :
      Pays setting world (debts + protocol.onward) now (jobs + protocol.jobs) (.gather group next)
  | look {world debts now jobs number next}
      (pays : ∀ content, Pays setting world debts now jobs (next content)) :
      Pays setting world debts now jobs (.look number next)
  | put {world debts now jobs number content next}
      (allowed : setting.common number ∨ world[number]? = some .free)
      (pays : Pays setting world debts now jobs next) :
      Pays setting world debts now jobs (.put number content next)
  /-- A member comes to its group. If that settles the group, its own debt is to be paid. -/
  | arrive {world : World σ} {now : Nat} {debts jobs number member script} {protocol : Protocol σ}
      (after : Group σ → Finset Nat → Group σ) (rest : Group σ → Finset Nat → Script σ)
      (known : world[number]? = some protocol) (timely : (now : ℕ∞) ≤ protocol.latest member)
      (others : ¬setting.nested → ∀ debt ∈ debts, (now : ℕ∞) ≤ world.latest debt)
      (changes : ∀ content pending, protocol.Expects now member content pending →
        script.Changes number content (after content pending) (rest content pending))
      (valid : ∀ content pending, protocol.Expects now member content pending →
        protocol.valid now (after content pending) (pending.erase member))
      (settled : ∀ content pending, protocol.Expects now member content pending →
        content.settled = true → (after content pending).settled = true)
      (waits : ∀ content pending, protocol.Expects now member content pending →
        (after content pending).settled = content.settled →
          Pays setting world debts now jobs (rest content pending))
      (settles : ∀ content pending, protocol.Expects now member content pending →
        content.settled = false → (after content pending).settled = true →
          Pays setting world (debts + protocol.onward) now (jobs + protocol.jobs)
            (rest content pending)) :
      Pays setting world (debts + {⟨number, member⟩}) now jobs script
  | configure {world debts now jobs config next} (pays : Pays setting world debts now jobs next) :
      Pays setting world debts now jobs (.configure config next)
  | inspect {world debts now jobs next}
      (pays : ∀ stats config, Pays setting world debts now jobs (next stats config)) :
      Pays setting world debts now jobs (.inspect next)
  | turn {world debts now next} (nested : setting.nested)
      (pays : ∀ later time turn, world <+: later → now ≤ time →
        Pays setting later debts time ⊤ (next turn)) :
      Pays setting world debts now ⊤ (.turn next)
  | drain {world debts now next} (nested : setting.nested)
      (pays : ∀ later time count, world <+: later → now ≤ time →
        Pays setting later debts time ⊤ (next count)) :
      Pays setting world debts now ⊤ (.drain next)
  | hold {world debts now jobs next} (pays : ∀ waker, Pays setting world debts now jobs (next waker)) :
      Pays setting world debts now jobs (.hold next)
  | wake {world debts now jobs waker rest next} (nested : setting.nested)
      (woken : ∀ later time, world <+: later → now ≤ time → Pays setting later 0 time ⊤ (rest ()))
      (pays : Pays setting world debts now jobs next) :
      Pays setting world debts now jobs (.wake waker rest next)
  | await {world debts now waker next} (nested : setting.nested)
      (pays : ∀ later time woken, world <+: later → now ≤ time →
        Pays setting later debts time ⊤ (next woken)) :
      Pays setting world debts now ⊤ (.await waker next)
  | budget {world debts now jobs next} (pays : Pays setting world debts now jobs (next setting.bound)) :
      Pays setting world debts now jobs (.budget next)

theorem Script.Changes.andThen {script rest : Script σ} {group : Nat} {before after : Group σ}
    (changes : script.Changes group before after rest) (last : Script σ) :
    (script.andThen last).Changes group before after (rest.andThen last) := by
  intro host loop inside found
  obtain ⟨journal, same⟩ := changes host loop inside found
  exact ⟨journal, by rw [run_andThen, run_andThen, same]⟩

namespace Pays

variable {setting : Setting} {world : World σ} {debts : Multiset Debt} {now : Nat} {jobs : ℕ∞}
  {script : Script σ}

theorem extend (pays : Pays setting world debts now jobs script) :
    ∀ {later}, world <+: later → Pays setting later debts now jobs script := by
  induction pays with
  | done => exact fun _ => .done
  | stuck nested => exact fun _ => .stuck nested
  | waive waived spared lenient endless _ ih =>
    exact fun extended => .waive waived spared lenient
      (fun debt member => World.latest_eq_top extended (endless debt member)) (ih extended)
  | forget nested _ ih => exact fun extended => .forget nested (ih extended)
  | submit owing _ _ ihJob ih => exact fun extended => .submit owing (ihJob extended) (ih extended)
  | now _ ih => exact fun extended => .now (ih extended)
  | record _ ih => exact fun extended => .record (ih extended)
  | review _ ih => exact fun extended => .review fun journal => ih journal extended
  | gather protocol fresh patient unhurried valid deadline pays _ =>
    exact fun extended => .gather protocol fresh patient unhurried valid
      (fun debt member => (deadline debt member).trans (World.latest_mono extended debt))
      fun later extended' => pays later (extended.trans extended')
  | look _ ih => exact fun extended => .look fun content => ih content extended
  | put allowed _ ih =>
    exact fun extended => .put (allowed.imp_right (World.getElem?_extend extended)) (ih extended)
  | arrive after rest known timely others changes valid settled _ _ ihWaits ihSettles =>
    exact fun extended => .arrive after rest (World.getElem?_extend extended known) timely
      (fun simple debt owed => (others simple debt owed).trans (World.latest_mono extended debt))
      changes valid settled
      (fun content pending expects same => ihWaits content pending expects same extended)
      (fun content pending expects was is => ihSettles content pending expects was is extended)
  | configure _ ih => exact fun extended => .configure (ih extended)
  | inspect _ ih => exact fun extended => .inspect fun stats config => ih stats config extended
  | turn nested pays _ =>
    exact fun extended => .turn nested fun later time turn extended' =>
      pays later time turn (extended.trans extended')
  | drain nested pays _ =>
    exact fun extended => .drain nested fun later time count extended' =>
      pays later time count (extended.trans extended')
  | hold _ ih => exact fun extended => .hold fun waker => ih waker extended
  | wake nested woken _ _ ih =>
    exact fun extended => .wake nested
      (fun later time extended' => woken later time (extended.trans extended')) (ih extended)
  | await nested pays _ =>
    exact fun extended => .await nested fun later time woken extended' =>
      pays later time woken (extended.trans extended')
  | budget _ ih => exact fun extended => .budget (ih extended)

theorem le_latest (pays : Pays setting world debts now jobs script) (simple : ¬setting.nested) :
    ∀ debt ∈ debts, debt.group < world.length → (now : ℕ∞) ≤ world.latest debt := by
  induction pays with
  | done => exact fun debt member => absurd member (Multiset.notMem_zero debt)
  | stuck nested | forget nested | turn nested | drain nested | wake nested | await nested =>
    exact absurd nested simple
  | waive _ _ _ endless _ ih =>
    intro debt member inside
    rcases Multiset.mem_add.mp member with kept | waived
    · exact ih debt kept inside
    · exact endless debt waived ▸ le_top
  | submit _ _ _ ihJob ih =>
    intro debt member inside
    rcases Multiset.mem_add.mp member with handed | kept
    · exact (Nat.cast_le.mpr (Lane.le_due _ _)).trans (ihJob debt handed inside)
    · exact ih debt kept inside
  | now _ ih | record _ ih | put _ _ ih | configure _ ih | budget _ ih => exact ih
  | review _ ih => exact ih []
  | look _ ih => exact ih (.ofSize 0)
  | inspect _ ih => exact ih ⟨0, 0, 0, 0⟩ {}
  | hold _ ih => exact ih 0
  | @gather world debts now _ _ _ protocol fresh patient unhurried valid deadline pays ih =>
    intro debt member inside
    have later := ih world (List.prefix_refl world)
    rcases Multiset.mem_add.mp member with kept | owed
    · have bound := later debt (Multiset.mem_add.mpr (.inl kept)) (by simp; omega)
      rwa [World.latest_extend (List.prefix_append ..) inside] at bound
    · refine le_trans ?_ (deadline debt owed)
      have owing : protocol.onward ≠ 0 := fun none => by simp [none] at owed
      obtain ⟨first, waiting, before⟩ :=
        protocol.waits valid (Bool.eq_false_iff.mpr fun settled => owing (fresh settled)) owing
      have bound := later ⟨world.length, first⟩
        (Multiset.mem_add.mpr (.inr (Debt.mem_among.mpr waiting))) (by simp)
      rw [World.latest_eq (List.getElem?_concat_length ..)] at bound
      exact bound.trans before
  | arrive _ _ known timely others =>
    intro debt owed _
    rcases Multiset.mem_add.mp owed with kept | own
    · exact others simple debt kept
    · rw [Multiset.mem_singleton.mp own, World.latest_eq known]
      exact timely

theorem andThen (pays : Pays setting world debts now jobs script) :
    ∀ {debts' : Multiset Debt} {jobs' : ℕ∞} {last : Script σ},
      (¬setting.nested → ∀ debt ∈ debts', (now : ℕ∞) ≤ world.latest debt) →
      (∀ later time, world <+: later → now ≤ time → (setting.nested ∨ time = now) →
        Pays setting later debts' time jobs' last) →
      Pays setting world (debts + debts') now (jobs + jobs') (script.andThen last) := by
  induction pays with
  | @done world now =>
    intro debts' jobs' last _ after
    rw [zero_add, zero_add]
    exact after world now (List.prefix_refl _) (le_refl _) (.inr rfl)
  | stuck nested =>
    intro debts' jobs' last _ _
    rw [top_add]
    exact .stuck nested
  | @waive world debts now jobs script waived spared lenient endless _ ih =>
    intro debts' jobs' last timely after
    rw [add_right_comm debts, add_right_comm jobs]
    exact .waive waived spared lenient endless (ih timely after)
  | forget nested _ ih =>
    intro debts' jobs' last timely after
    rw [top_add]
    exact .forget nested (ih timely after)
  | submit owing handed _ _ ih =>
    intro debts' jobs' last timely after
    rw [add_assoc, add_assoc]
    exact .submit owing handed (ih timely after)
  | now _ ih => exact fun timely after => .now (ih timely after)
  | record _ ih => exact fun timely after => .record (ih timely after)
  | review _ ih => exact fun timely after => .review fun journal => ih journal timely after
  | @gather world debts now jobs next group protocol fresh patient unhurried valid deadline _ ih =>
    intro debts' jobs' last timely after
    rw [add_right_comm debts, add_right_comm jobs]
    refine .gather protocol fresh patient unhurried valid deadline fun later extended => ?_
    have extended' : world <+: later ++ [protocol] := extended.trans (List.prefix_append ..)
    rw [add_right_comm debts]
    exact ih later extended
      (fun simple debt owed => (timely simple debt owed).trans (World.latest_mono extended' debt))
      fun further time extended'' => after further time (extended'.trans extended'')
  | look _ ih => exact fun timely after => .look fun content => ih content timely after
  | put allowed _ ih => exact fun timely after => .put allowed (ih timely after)
  | @arrive world now debts jobs number member script protocol move rest known timely others changes
      valid settled _ _ ihWaits ihSettles =>
    intro debts' jobs' last timely' after
    rw [add_right_comm debts]
    refine .arrive move (fun content pending => (rest content pending).andThen last) known timely ?_
      (fun content pending expects => (changes content pending expects).andThen last) valid settled
      (fun content pending expects same => ihWaits content pending expects same timely' after) ?_
    · intro simple debt owed
      rcases Multiset.mem_add.mp owed with own | more
      · exact others simple debt own
      · exact timely' simple debt more
    · intro content pending expects was is
      rw [add_right_comm debts, add_right_comm jobs]
      exact ihSettles content pending expects was is timely' after
  | configure _ ih => exact fun timely after => .configure (ih timely after)
  | inspect _ ih => exact fun timely after => .inspect fun stats config => ih stats config timely after
  | turn nested pays ih =>
    intro debts' jobs' last _ after
    rw [top_add]
    refine .turn nested fun later time turn extended before => ?_
    have continued := ih later time turn extended before (fun simple => absurd nested simple)
      fun further time' extended' before' _ => after further time' (extended.trans extended')
        (before.trans before') (.inl nested)
    rwa [top_add] at continued
  | drain nested pays ih =>
    intro debts' jobs' last _ after
    rw [top_add]
    refine .drain nested fun later time count extended before => ?_
    have continued := ih later time count extended before (fun simple => absurd nested simple)
      fun further time' extended' before' _ => after further time' (extended.trans extended')
        (before.trans before') (.inl nested)
    rwa [top_add] at continued
  | hold _ ih => exact fun timely after => .hold fun waker => ih waker timely after
  | wake nested woken _ _ ih => exact fun timely after => .wake nested woken (ih timely after)
  | await nested pays ih =>
    intro debts' jobs' last _ after
    rw [top_add]
    refine .await nested fun later time woken extended before => ?_
    have continued := ih later time woken extended before (fun simple => absurd nested simple)
      fun further time' extended' before' _ => after further time' (extended.trans extended')
        (before.trans before') (.inl nested)
    rwa [top_add] at continued
  | budget _ ih => exact fun timely after => .budget (ih timely after)

end Pays

end Deferred
