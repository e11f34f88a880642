import Deferred.Proofs.Debt.Confined
import Deferred.Proofs.Debt.Race
import Deferred.Proofs.Debt.Slots
import Deferred.Proofs.Debt.Wait
import Deferred.Proofs.Debt.Zip
import Deferred.Proofs.Future.Built

/-! A future hands its outcome on exactly once, and never in the turn in which it is run, whatever else
shares the loop with it: late members of a race, failures after the common outcome, jobs that make turns
themselves. -/

namespace Deferred.Future

variable {σ : Type}

/-- Leaves that hand their continuation on exactly once, in a later turn. They may share the first
`groups` groups of the loop with other jobs. -/
def Leaves.raw (groups : Nat) : Leaves σ :=
  fun _ _ future possible =>
    ∀ next, (future.run next).Hands next possible False (· < groups)

section Keeps

variable {ε ε' α β γ : Type} {bound groups : Nat}

theorem jobsOf_sometime (possible : Except ε α → Prop) {size : Nat} (some : 0 < size) :
    Parallel.jobsOf (fun _ => .sometime possible) size = ⊤ := by
  obtain ⟨size, rfl⟩ := Nat.exists_eq_add_of_lt some
  simp [Parallel.jobsOf, List.range'_succ, Promise.sometime]

theorem timeless_sometime (possible : Except ε α → Prop) : Parallel.Timeless (.sometime possible) :=
  ⟨rfl, fun _ _ _ may _ => may⟩

theorem weaker_sometime {possible : Except ε α → Prop} {outcome : Except ε α} {delay jobs : Nat}
    (may : possible outcome) :
    (Promise.sometime possible).Weaker (.sharing bound groups) (.exactly outcome delay jobs) :=
  ⟨fun _ _ come => come.1 ▸ may, le_top, .inr ⟨trivial, rfl⟩⟩

theorem joins_sometime {sort : Except ε α → β ⊕ Except ε' γ} {finish : List β → Except ε' γ}
    {size : Nat} {each : Except ε α → Prop} {possible : Except ε' γ → Prop}
    (ends : ∀ outcome result, each outcome → sort outcome = .inr result → possible result)
    (fills : ∀ values : List β, values.length = size →
      (∀ value ∈ values, ∃ outcome, each outcome ∧ sort outcome = .inl value) →
        possible (finish values)) :
    Parallel.Joins sort finish size (fun _ => .sometime each) (.sometime possible) := by
  constructor
  case critical =>
    intro pending nonempty _ _
    obtain ⟨index, waiting⟩ := nonempty
    exact ⟨index, waiting, le_top⟩
  case ends => exact fun index _ outcome _ result may same _ => ends outcome result may same
  case fills =>
    intro values delays delay length fits _
    apply fills values length
    intro value member
    obtain ⟨index, inside, rfl⟩ := List.mem_iff_getElem.mp member
    obtain ⟨value, found, come, _⟩ := fits index (length ▸ inside)
    rw [List.getElem?_eq_getElem inside] at found
    exact Option.some.inj found ▸ come

theorem keeps_joint_sometime [Storable β σ] {sort : Except ε α → β ⊕ Except ε' γ}
    {finish : List β → Except ε' γ} {futures : List (Future σ ε α)} {each : Except ε α → Prop}
    {possible : Except ε' γ → Prop}
    (joins : Parallel.Joins sort finish futures.length (fun _ => .sometime each) (.sometime possible))
    (after : Nat → Bool → Script σ)
    (idle : ∀ index won, Parallel.Idle (.sharing bound groups) (after index won))
    (nonempty : futures ≠ [])
    (keeps : ∀ future ∈ futures, future.Keeps (.sharing bound groups) (.sometime each)) :
    (Parallel.sideBySide (.ofSize futures.length) (Parallel.arrivalBy sort finish after) futures).Keeps
      (.sharing bound groups) (.sometime possible) :=
  Parallel.keeps_joint joins after idle nonempty
    (fun _ future found => keeps future (List.mem_of_getElem? found))
    (fun _ _ => timeless_sometime each) (fun patient => patient.elim)
    (jobsOf_sometime each (List.length_pos_of_ne_nil nonempty)).symm

/-- Whatever a future is built of, it hands on one of its possible outcomes at some time. -/
theorem Built.keeps {ε α : Type} {future : Future σ ε α} {possible : Except ε α → Prop}
    (built : Built (.raw groups) True future possible) :
    future.Keeps (.sharing bound groups) (.sometime possible) := by
  induction built with
  | @leaf ε α future possible leaf =>
    intro world debt now jobs next _ pays
    have paysLater : ∀ later time outcome, world <+: later → now ≤ time → possible outcome →
        Pays (.sharing bound groups) later {debt} time jobs (next outcome) := by
      intro later time outcome extended after may
      obtain ⟨delay, rfl⟩ := Nat.exists_eq_add_of_le after
      exact (pays outcome delay may).extend extended
    have paid := (leaf next).pays (fun number inside => .inl inside) paysLater
    rwa [← top_add jobs] at paid
  | settled may => exact (keeps_settled _).weaken (weaker_sometime may)
  | settledAfter delay may => exact (keeps_settledAfter _ delay).weaken (weaker_sometime may)
  | later _ ih => exact ih.later (fun _ _ may => may) le_top rfl
  | @bindOutcome ε ε' α β first step before possible _ _ ihFirst ihStep =>
    have count : (Promise.sometime possible).jobs = 1 + (Promise.sometime before).jobs + ⊤ := rfl
    apply ihFirst.bindOutcome le_top count
    intro outcome delay may
    exact ⟨_, ihStep outcome may, fun _ _ come => come, le_top, rfl⟩
  | watched name _ ih => exact ih.watched name
  | @allSettled ε α _ futures each possible _ may ih =>
    rcases eq_or_ne futures [] with rfl | nonempty
    · exact (keeps_settled (.ok [])).weaken (weaker_sometime (may [] rfl (by simp)))
    · rw [Parallel.allSettled_eq nonempty]
      have joins : Parallel.Joins .inl .ok futures.length (fun _ => .sometime each) (.sometime possible) :=
        joins_sometime (fun _ _ _ never => absurd never (by simp)) fun outcomes length found =>
          may outcomes length fun outcome member => by
            obtain ⟨_, come, same⟩ := found outcome member
            exact Sum.inl.inj same ▸ come
      exact keeps_joint_sometime joins _ (fun _ _ => .done) nonempty ih
  | @all ε α _ futures each possible _ _ succeeds fails ih =>
    rcases eq_or_ne futures [] with rfl | nonempty
    · exact (keeps_settled (.ok [])).weaken (weaker_sometime (succeeds [] rfl (by simp)))
    · rw [Parallel.all_eq nonempty]
      have joins : Parallel.Joins Parallel.valueOrEnd .ok futures.length (fun _ => .sometime each)
          (.sometime possible) := by
        refine joins_sometime (fun outcome result come same => ?_) fun values length found =>
          succeeds values length fun value member => ?_
        · obtain ⟨error, rfl, rfl⟩ := Parallel.valueOrEnd_eq_inr.mp same
          exact fails error come
        · obtain ⟨outcome, come, same⟩ := found value member
          exact Parallel.valueOrEnd_eq_inl.mp same ▸ come
      exact keeps_joint_sometime joins _ (fun _ => Parallel.Idle.record_if _) nonempty ih
  | @any ε α _ futures each possible _ _ succeeds fails none ih =>
    rcases eq_or_ne futures [] with rfl | nonempty
    · exact (keeps_settled (.error NoWinner.empty)).weaken (weaker_sometime (none rfl))
    · rw [Parallel.any_eq nonempty]
      have joins : Parallel.Joins Parallel.endOrError (fun errors => .error (.allFailed errors))
          futures.length (fun _ => .sometime each) (.sometime possible) := by
        refine joins_sometime (fun outcome result come same => ?_) fun errors length found =>
          fails errors length fun error member => ?_
        · obtain ⟨value, rfl, rfl⟩ := Parallel.endOrError_eq_inr.mp same
          exact succeeds value come
        · obtain ⟨outcome, come, same⟩ := found error member
          exact Parallel.endOrError_eq_inl.mp same ▸ come
      exact keeps_joint_sometime joins _ (fun _ => Parallel.Idle.record_if _) nonempty ih
  | @race ε α futures possible _ nonempty _ ih =>
    have size := List.length_pos_of_ne_nil nonempty
    have competes : Parallel.Competes futures.length (fun _ => .sometime possible)
        (.sometime possible) := ⟨⟨0, size, le_top⟩, fun _ _ _ _ may _ => may⟩
    exact Parallel.keeps_race competes (fun _ future found => ih future (List.mem_of_getElem? found))
      (fun _ _ => timeless_sometime possible) not_false (jobsOf_sometime possible size).symm
  | @zip ε α β _ _ left right first second possible _ _ _ succeeds fails ihLeft ihRight =>
    have pairs : Parallel.Pairs (.sometime first) (.sometime second) (.sometime possible) :=
      ⟨le_top, le_top, fun value other _ _ _ may may' _ _ _ => succeeds value other may may',
        fun error _ may => fails error (.inl may), fun error _ may => fails error (.inr may)⟩
    exact Parallel.keeps_zip pairs ihLeft ihRight
      (fun _ => ⟨timeless_sometime first, timeless_sometime second⟩) not_false rfl

end Keeps

section Spares

variable {cell groups : Nat}

theorem spares_startAll {ε α : Type} {futures : List (Future σ ε α)}
    (spares : ∀ future ∈ futures, ∀ next, (future.run next).Spares cell)
    (arrive : Nat → Except ε α → Script σ) (index : Nat) :
    (Parallel.startAll arrive index futures).Spares cell := by
  induction futures generalizing index with
  | nil => exact .done
  | cons future futures ih =>
    refine (spares future (List.mem_cons_self ..) _).andThen ?_
    exact ih (fun other member => spares other (List.mem_cons_of_mem _ member)) (index + 1)

theorem Built.spares {ε α : Type} {future : Future σ ε α} {possible : Except ε α → Prop}
    (built : Built (.raw groups) True future possible) (foreign : groups ≤ cell)
    (next : Except ε α → Script σ) : (future.run next).Spares cell := by
  induction built with
  | leaf leaf => exact (leaf next).spares not_false (Nat.not_lt.mpr foreign)
  | settled | settledAfter | later | bindOutcome => exact .submit .done
  | watched _ _ ih => exact fun host loop => ih _ host loop
  | @allSettled _ _ _ futures _ _ _ _ ih =>
    rcases eq_or_ne futures [] with rfl | nonempty
    · exact .submit .done
    · rw [Parallel.allSettled_eq nonempty]
      exact .gather fun _ _ => spares_startAll ih _ 0
  | @all _ _ _ futures _ _ _ _ _ _ ih =>
    rcases eq_or_ne futures [] with rfl | nonempty
    · exact .submit .done
    · rw [Parallel.all_eq nonempty]
      exact .gather fun _ _ => spares_startAll ih _ 0
  | @any _ _ _ futures _ _ _ _ _ _ _ ih =>
    rcases eq_or_ne futures [] with rfl | nonempty
    · exact .submit .done
    · rw [Parallel.any_eq nonempty]
      exact .gather fun _ _ => spares_startAll ih _ 0
  | race _ _ _ ih => exact .gather fun _ _ => spares_startAll ih _ 0
  | zip _ _ _ _ _ ihLeft ihRight => exact .gather fun _ _ => (ihLeft _).andThen (ihRight _)

end Spares

def tallied {ε α : Type} (cell : Nat) (next : Except ε α → Script σ) (outcome : Except ε α) : Script σ :=
  .look cell fun content =>
    .put cell { content with remaining := content.remaining + 1 } (next outcome)

def tally (cell : Nat) (loop : Loop σ) : Nat :=
  (loop.group cell).remaining

def tallyProtocol : Protocol σ :=
  .unawaited {0} (fun _ => ⊤) (fun _ content pending => content.remaining = if 0 ∈ pending then 0 else 1)
    fun _ valid => valid

theorem pays_tallied {ε α : Type} {bound groups cell now : Nat} {world : World σ}
    {next : Except ε α → Script σ} {outcome : Except ε α}
    (known : world[cell]? = some tallyProtocol) (confined : (next outcome).Confined True (· < groups)) :
    Pays (.sharing bound groups) world {⟨cell, 0⟩} now ⊤ (tallied cell next outcome) := by
  rw [← zero_add ({⟨cell, 0⟩} : Multiset Debt)]
  apply Arrives.pays known le_top (fun simple => absurd trivial simple)
  intro content pending expects
  refine .waits { content with remaining := content.remaining + 1 } (next outcome)
    (.look (.put (.refl _))) ?_ rfl (confined.pays fun number inside => .inl inside)
  have before := expects.valid
  simp only [tallyProtocol, Protocol.unawaited, expects.awaited, if_true] at before
  simp [tallyProtocol, Protocol.unawaited, before]

section Once

variable {bound : Nat} {loop later : Loop σ} {world : World σ}

theorem sound_of_run {groups depth : Nat} {turns : Prop} {script : Script σ}
    (sound : Sound (.sharing bound groups) world 0 ⊤ loop) (confined : script.Confined turns (· < groups))
    (ran : script.run (Loop.hostAt bound depth) loop = some later) :
    ∃ further, world <+: further ∧ Sound (.sharing bound groups) further 0 ⊤ later := by
  have paid : Pays (.sharing bound groups) world 0 loop.clock ⊤ script :=
    confined.pays fun number inside => .inl inside
  rw [← zero_add (0 : Multiset Debt)] at sound
  obtain ⟨further, extended, sound', _⟩ :=
    (paid.run (keeps_hostAt (.sharing bound groups) depth) loop rfl sound).2 later ran
  rw [add_top] at sound'
  exact ⟨further, extended, sound'⟩

theorem sound_of_reaches {started : Loop σ} {groups : Nat}
    (sound : Sound (.sharing bound groups) world 0 ⊤ started)
    (reached : started.Reaches bound groups later) :
    ∃ further, world <+: further ∧ Sound (.sharing bound groups) further 0 ⊤ later := by
  induction reached with
  | refl => exact ⟨world, List.prefix_refl world, sound⟩
  | @turn depth later outcome next _ turned ih =>
    obtain ⟨middle, extended, sound⟩ := ih
    have step := ((keeps_hostAt (.sharing bound groups) depth).turned sound fun _ => rfl).2 outcome next
      turned
    obtain ⟨further, extended', sound', _⟩ := step.follows trivial sound
    exact ⟨further, extended.trans extended', sound'⟩
  | run _ confined ran ih =>
    obtain ⟨middle, extended, sound⟩ := ih
    obtain ⟨further, extended', sound'⟩ := sound_of_run sound confined ran
    exact ⟨further, extended.trans extended', sound'⟩

theorem tally_of_sound {groups : Nat} (sound : Sound (.sharing bound groups) world 0 ⊤ later)
    {cell : Nat} (known : world[cell]? = some tallyProtocol) :
    tally cell later ≤ 1 ∧ (later.next = .idle → tally cell later = 1) := by
  obtain ⟨book, pending, ledger⟩ := sound
  have valid : (later.group cell).remaining = if 0 ∈ pending cell then 0 else 1 :=
    ledger.valid cell _ known
  refine ⟨?_, fun idle => ?_⟩
  · rw [tally, valid]
    split
    next => exact Nat.zero_le 1
    next => exact le_refl 1
  · rw [tally, valid, if_neg (ledger.settled_of_idle not_false idle ⟨cell, 0⟩)]

variable {ε α : Type} {future : Future σ ε α} {possible : Except ε α → Prop}

/-- A continuation that counts its calls has not been called by the end of the turn that runs the future,
and is called once by the time that the loop is idle. -/
theorem Built.counted (built : Built (.raw loop.groups.size) True future possible)
    (orderly : loop.Orderly) {next : Except ε α → Script σ}
    (confined : ∀ outcome, (next outcome).Confined True (· < loop.groups.size)) {depth : Nat}
    {rest : Script σ} (still : rest.Confined False (· < loop.groups.size)) {started : Loop σ}
    (ran : ((future.run (tallied loop.groups.size next)).andThen rest).run (Loop.hostAt bound depth)
      (loop.gather (.ofSize 0)) = some started) :
    tally loop.groups.size started = 0 ∧
      ∀ later, started.Reaches bound loop.groups.size later → tally loop.groups.size later ≤ 1 ∧
        (later.next = .idle → tally loop.groups.size later = 1) := by
  have known := World.placed_getElem? loop.groups.size (tallyProtocol : Protocol σ)
  have fresh : (tallyProtocol : Protocol σ).valid loop.clock (.ofSize 0) {0} := by
    simp [tallyProtocol, Protocol.unawaited, Group.ofSize]
  have placed := (orderly.sound bound).place tallyProtocol rfl rfl fresh le_top
    (fun patient => patient.elim) fun _ _ => rfl
  have keeps : future.Keeps (.sharing bound loop.groups.size) (.sometime possible) := built.keeps
  have pays : Pays (.sharing bound loop.groups.size) _ {⟨loop.groups.size, 0⟩} loop.clock (⊤ + ⊤)
      (future.run (tallied loop.groups.size next)) :=
    keeps (by rw [World.latest_eq known]; exact le_top) fun outcome delay _ =>
      pays_tallied known (confined outcome)
  refine ⟨?_, fun later reached => ?_⟩
  · have inside : loop.groups.size < (loop.gather (.ofSize 0)).groups.size := by simp [Loop.gather]
    have spares := (built.spares (le_refl _) (tallied loop.groups.size next)).andThen
      (still.spares not_false (Nat.lt_irrefl _))
    rw [tally, (spares _ _ started inside ran).2, loop.group_gather]
    rfl
  · rw [Script.run_andThen] at ran
    obtain ⟨middle, ran, ran'⟩ := Option.bind_eq_some_iff.mp ran
    obtain ⟨world, extended, sound, _⟩ :=
      (pays.run (keeps_hostAt (.sharing bound loop.groups.size) depth) (loop.gather (.ofSize 0)) rfl
        placed).2 middle ran
    rw [add_top] at sound
    obtain ⟨world', extended', sound'⟩ := sound_of_run sound.forget still ran'
    obtain ⟨world'', extended'', sound''⟩ := sound_of_reaches sound' reached
    exact tally_of_sound sound''
      (World.getElem?_extend ((extended.trans extended').trans extended'') known)

theorem Built.waited [Storable (Except ε α) σ]
    (built : Built (.raw loop.groups.size) True future possible) (orderly : loop.Orderly)
    {waited : Waited σ ε α} (ended : loop.waitFor bound future = some waited) :
    ∃ outcome, waited.outcome = some outcome ∧ possible outcome := by
  have known := World.placed_getElem? loop.groups.size
    (.cell (.sometime possible) loop.clock : Protocol σ)
  have placed := (orderly.sound bound).place (.cell (.sometime possible) loop.clock) rfl rfl
    (Protocol.cell_valid ..) le_self_add (fun patient => patient.elim) fun _ _ => rfl
  have keeps : future.Keeps (.sharing bound loop.groups.size) (.sometime possible) := built.keeps
  have pays : Pays (.sharing bound loop.groups.size) _ {⟨loop.groups.size, 0⟩} loop.clock (⊤ + 0)
      (future.run (Loop.deliver loop.groups.size)) :=
    keeps (ge_of_eq (World.latest_eq known 0)) fun _ _ may => pays_deliver known may
  simp only [Loop.waitFor] at ended
  split at ended
  next => exact absurd ended (by simp)
  next started ran =>
    obtain ⟨world, extended, sound, _⟩ :=
      (pays.run (keeps_hostAt (.sharing bound loop.groups.size) bound) (loop.gather (.ofSize 1)) rfl
        placed).2 started ran
    split at ended
    next => exact absurd ended (by simp)
    next count after driven =>
      obtain ⟨further, extended', sound', _⟩ := driveWith_follows
        (fun sound turned => (((keeps_hostAt (.sharing bound loop.groups.size) bound).turned sound
          fun _ => rfl).2 _ _ turned).follows trivial sound) sound.forget driven
      have known' := World.getElem?_extend (extended.trans extended') known
      obtain ⟨book, pending, ledger⟩ := sound'
      have gone : 0 ∉ pending loop.groups.size := by
        rcases driveWith_ends driven with delivered | idle
        · exact ledger.not_mem_of_hasDelivery known' delivered
        · exact ledger.settled_of_idle not_false idle ⟨loop.groups.size, 0⟩
      obtain ⟨outcome, _, may, _, slots⟩ := ledger.delivery known' gone
      obtain rfl := Option.some.inj ended
      exact ⟨outcome, by simp [Group.values, slots], may⟩

end Once

end Deferred.Future
