import Deferred.Proofs.Debt.Run
import Deferred.Proofs.Debt.Start
import Deferred.Proofs.Loop.Confined

/-! Jobs that share a loop with a future owe nothing. They may do what they like with the groups that
were there before the future, and may make turns of the loop; so nothing is said of times or of the
number of jobs. -/

namespace Deferred

variable {σ : Type}

def Setting.sharing (bound groups : Nat) : Setting where
  bound
  nested := True
  patient := False
  common number := number < groups
  root := 0

def World.Open (groups : Nat) (world : World σ) (number : Nat) : Prop :=
  number < groups ∨ world[number]? = some .free

variable {bound groups : Nat} {world : World σ}

theorem World.Open.extend {later : World σ} {number : Nat} (isOpen : world.Open groups number)
    (extended : world <+: later) : later.Open groups number :=
  isOpen.imp_right (World.getElem?_extend extended)

theorem World.Open.gathered {own : Nat → Prop} {later : World σ}
    (owned : ∀ number, own number → world.Open groups number) (extended : world <+: later) :
    ∀ number, own number ∨ number = later.length →
      World.Open groups (later ++ [.free]) number := by
  intro number case
  rcases case with old | rfl
  · exact (owned number old).extend (extended.trans (List.prefix_append ..))
  · exact .inr (List.getElem?_concat_length ..)

theorem Script.Confined.pays {turns : Prop} {own : Nat → Prop} {script : Script σ} {now : Nat}
    (confined : script.Confined turns own) (owned : ∀ number, own number → world.Open groups number) :
    Pays (.sharing bound groups) world 0 now ⊤ script := by
  induction confined generalizing world now with
  | done => exact .forget trivial .done
  | stuck => exact .stuck trivial
  | @submit _ _ lane job next _ _ ihJob ih =>
    have paid : Pays (.sharing bound groups) world (0 + 0) now (⊤ + 1 + ⊤) (.submit lane job next) :=
      .submit (fun patient => patient.elim) (ihJob owned) (ih owned)
    rwa [add_zero, add_top] at paid
  | now _ ih => exact .now (ih now owned)
  | record _ ih => exact .record (ih owned)
  | review _ ih => exact .review fun journal => ih journal owned
  | gather _ ih =>
    exact pays_gather_free not_false fun later extended => ih later.length (World.Open.gathered owned extended)
  | look _ ih => exact .look fun content => ih content owned
  | put own _ ih => exact .put (owned _ own) (ih owned)
  | configure _ ih => exact .configure (ih owned)
  | inspect _ ih => exact .inspect fun stats config => ih stats config owned
  | turn _ _ ih =>
    exact .turn trivial fun later time turn extended _ =>
      ih turn fun number own => (owned number own).extend extended
  | drain _ _ ih =>
    exact .drain trivial fun later time count extended _ =>
      ih count fun number own => (owned number own).extend extended
  | hold _ ih => exact .hold fun waker => ih waker owned
  | wake _ _ ihRest ih =>
    exact .wake trivial
      (fun later time extended _ => ihRest fun number own => (owned number own).extend extended)
      (ih owned)
  | await _ _ ih =>
    exact .await trivial fun later time woken extended _ =>
      ih woken fun number own => (owned number own).extend extended
  | budget _ ih => exact .budget (ih _ owned)

/-- Whoever hands a continuation on once pays a debt, if the continuation does. -/
theorem Script.Hands.pays {ε α : Type} {next : Except ε α → Script σ} {possible : Except ε α → Prop}
    {turned : Prop} {own : Nat → Prop} {script : Script σ} {debt : Debt} {now : Nat} {jobs : ℕ∞}
    (hands : script.Hands next possible turned own)
    (owned : ∀ number, own number → world.Open groups number)
    (pays : ∀ later time outcome, world <+: later → now ≤ time → possible outcome →
      Pays (.sharing bound groups) later {debt} time jobs (next outcome)) :
    Pays (.sharing bound groups) world {debt} now ⊤ script := by
  induction hands generalizing world now with
  | @call _ _ outcome rest _ may confined =>
    have paid : Pays (.sharing bound groups) world ({debt} + 0) now (jobs + ⊤)
        ((next outcome).andThen rest) :=
      (pays world now outcome (List.prefix_refl world) (le_refl now) may).andThen
        (fun simple => absurd trivial simple)
        fun later time extended _ _ =>
          confined.pays fun number own => (owned number own).extend extended
    rwa [add_zero, add_top] at paid
  | @handOn _ _ lane job rest _ confined ih =>
    have paid : Pays (.sharing bound groups) world ({debt} + 0) now (⊤ + 1 + ⊤) (.submit lane job rest) :=
      .submit (fun patient => patient.elim)
        (ih owned fun later time outcome extended after =>
          pays later time outcome extended ((Lane.le_due now lane).trans after)) (confined.pays owned)
    rwa [add_zero, add_top] at paid
  | @submit _ _ lane job rest confined _ ih =>
    have paid : Pays (.sharing bound groups) world (0 + {debt}) now (⊤ + 1 + ⊤) (.submit lane job rest) :=
      .submit (fun patient => patient.elim) (confined.pays owned) (ih owned pays)
    rwa [zero_add, add_top] at paid
  | now _ ih => exact .now (ih now owned pays)
  | record _ ih => exact .record (ih owned pays)
  | review _ ih => exact .review fun journal => ih journal owned pays
  | gather _ ih =>
    exact pays_gather_free not_false fun later extended =>
      ih later.length (World.Open.gathered owned extended)
        fun further time outcome extended' =>
          pays further time outcome ((extended.trans (List.prefix_append ..)).trans extended')
  | look _ ih => exact .look fun content => ih content owned pays
  | put own _ ih => exact .put (owned _ own) (ih owned pays)
  | configure _ ih => exact .configure (ih owned pays)
  | inspect _ ih => exact .inspect fun stats config => ih stats config owned pays
  | turn _ _ ih =>
    exact .turn trivial fun later time turn extended after =>
      ih turn (fun number own => (owned number own).extend extended)
        fun further time' outcome extended' after' =>
          pays further time' outcome (extended.trans extended') (after.trans after')
  | drain _ _ ih =>
    exact .drain trivial fun later time count extended after =>
      ih count (fun number own => (owned number own).extend extended)
        fun further time' outcome extended' after' =>
          pays further time' outcome (extended.trans extended') (after.trans after')
  | hold _ ih => exact .hold fun waker => ih waker owned pays
  | wake confined _ ih =>
    exact .wake trivial
      (fun later time extended _ => confined.pays fun number own => (owned number own).extend extended)
      (ih owned pays)
  | await _ _ ih =>
    exact .await trivial fun later time woken extended after =>
      ih woken (fun number own => (owned number own).extend extended)
        fun further time' outcome extended' after' =>
          pays further time' outcome (extended.trans extended') (after.trans after')
  | budget _ ih => exact .budget (ih _ owned pays)

theorem Loop.Orderly.sound {loop : Loop σ} (orderly : loop.Orderly) (bound : Nat) :
    Sound (.sharing bound loop.groups.size) (List.replicate loop.groups.size .free) 0 ⊤ loop := by
  have common : ∀ {later : World σ}, ∀ number, number < loop.groups.size →
      later.Open loop.groups.size number := fun _ => .inl
  have pool : loop.pool = (loop.pool.map fun task => Entry.mk task 0 ⊤).map Entry.toTask := by
    rw [Multiset.map_map]
    exact (Multiset.map_id' loop.pool).symm
  refine orderly.punctual.sound pool ?_ ?_ (fun patient => patient.elim) (fun patient => patient.elim)
    (.inl rfl) (fun number inside => inside) fun _ waker rest given later time _ _ =>
      (orderly.wakers waker rest given).pays common
  · intro entry member
    obtain ⟨task, queued, rfl⟩ := Multiset.mem_map.mp member
    exact (orderly.tasks task queued).pays common
  · intro entry member
    obtain ⟨task, _, rfl⟩ := Multiset.mem_map.mp member
    rfl

end Deferred
