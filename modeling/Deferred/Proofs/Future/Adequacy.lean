import Deferred.Proofs.Debt.Delivers
import Deferred.Proofs.Debt.Slots
import Deferred.Proofs.Future.Settles
import Mathlib.Algebra.BigOperators.Ring.Finset

/-! On a loop a future does what its direct evaluation says: the same outcome, after the same time, and
nothing is left to be done. Neither the configuration of the loop nor its count towards the next
periodic yield makes a difference. -/

namespace Deferred.Future

variable {σ : Type}

def Leaves.none : Leaves σ :=
  fun _ _ _ _ => False

theorem exists_timed {ε α : Type} {futures : List (Future σ ε α)}
    {each : Future σ ε α → Except ε α → Nat → Nat → Prop}
    (settle : ∀ future ∈ futures, ∃ outcome duration jobs, each future outcome duration jobs) :
    ∃ members : List (Timed σ ε α), members.map Timed.future = futures ∧ ∀ member ∈ members,
      each member.future member.outcome member.duration member.jobs := by
  induction futures with
  | nil => exact ⟨[], rfl, fun member inside => absurd inside List.not_mem_nil⟩
  | cons future futures ih =>
    obtain ⟨outcome, duration, jobs, first⟩ := settle future (List.mem_cons_self ..)
    obtain ⟨members, rfl, rest⟩ := ih fun other inside => settle other (List.mem_cons_of_mem _ inside)
    refine ⟨⟨future, outcome, duration, jobs⟩ :: members, rfl, fun member inside => ?_⟩
    rcases List.mem_cons.mp inside with rfl | inside
    · exact first
    · exact rest member inside

/-- A future that does not race comes to one of its possible outcomes. -/
theorem Built.settles {ε α : Type} {future : Future σ ε α} {possible : Except ε α → Prop}
    (built : Built Leaves.none False future possible) :
    ∃ outcome duration jobs, possible outcome ∧ Settles future outcome duration jobs := by
  induction built with
  | leaf leaf => exact absurd leaf not_false
  | settled may => exact ⟨_, _, _, may, .settled _⟩
  | settledAfter delay may => exact ⟨_, _, _, may, .settledAfter _ delay⟩
  | later _ ih =>
    obtain ⟨outcome, duration, jobs, may, settles⟩ := ih
    exact ⟨outcome, duration, 1 + jobs, may, .later settles⟩
  | bindOutcome _ _ ihFirst ihStep =>
    obtain ⟨outcome, duration, jobs, may, settles⟩ := ihFirst
    obtain ⟨outcome', duration', jobs', may', follows⟩ := ihStep outcome may
    exact ⟨outcome', duration + duration', 1 + jobs + jobs', may', .bindOutcome settles follows⟩
  | watched name _ ih =>
    obtain ⟨outcome, duration, jobs, may, settles⟩ := ih
    exact ⟨outcome, duration, jobs, may, .watched name settles⟩
  | allSettled _ may ih =>
    obtain ⟨members, rfl, settle⟩ := exists_timed ih
    refine ⟨_, _, _, may (members.map Timed.outcome) (by simp) fun outcome inside => ?_,
      .allSettled fun member inside => (settle member inside).2⟩
    obtain ⟨member, within, rfl⟩ := List.mem_map.mp inside
    exact (settle member within).1
  | all allowed | any allowed | race allowed | zip allowed => exact absurd allowed not_false

section Among

variable {ε α δ : Type} {members : List δ}

def promiseAmong (promise : δ → Promise ε α) (members : List δ) (index : Nat) : Promise ε α :=
  match members[index]? with
  | some member => promise member
  | none => .sometime fun _ => False

theorem promiseAmong_eq (promise : δ → Promise ε α) {index : Nat} (inside : index < members.length) :
    promiseAmong promise members index = promise members[index] := by
  simp [promiseAmong, inside]

theorem jobsOf_promiseAmong {promise : δ → Promise ε α} {jobs : δ → Nat}
    (count : ∀ member, (promise member).jobs = jobs member) (members : List δ) :
    Parallel.jobsOf (promiseAmong promise members) members.length = ((members.map jobs).sum : Nat) := by
  have same : (List.range' 0 members.length).map (fun index => (promiseAmong promise members index).jobs) =
      (members.map jobs).map (Nat.cast : Nat → ℕ∞) := by
    apply List.ext_getElem (by simp)
    intro index inside _
    have within : index < members.length := by simpa using inside
    simp [promiseAmong_eq _ within, count]
  rw [Parallel.jobsOf, same, Nat.cast_list_sum]

theorem keeps_among {setting : Setting} {member : δ → Future σ ε α} {promise : δ → Promise ε α}
    (keeps : ∀ one ∈ members, (member one).Keeps setting (promise one))
    (index : Nat) (future : Future σ ε α) (found : (members.map member)[index]? = some future) :
    future.Keeps setting (promiseAmong promise members index) := by
  rw [List.getElem?_map, Option.map_eq_some_iff] at found
  obtain ⟨one, found, rfl⟩ := found
  simp only [promiseAmong, found]
  exact keeps one (List.mem_of_getElem? found)

end Among

def Timed.promise {ε α : Type} (member : Timed σ ε α) : Promise ε α :=
  .exactly member.outcome member.duration member.jobs

def memberPromise {ε α : Type} : List (Timed σ ε α) → Nat → Promise ε α :=
  promiseAmong Timed.promise

theorem memberPromise_eq {ε α : Type} {members : List (Timed σ ε α)}
    {index : Nat} (inside : index < members.length) : memberPromise members index =
      .exactly members[index].outcome members[index].duration members[index].jobs :=
  promiseAmong_eq Timed.promise inside

theorem jobsOf_memberPromise {ε α : Type} (members : List (Timed σ ε α)) :
    Parallel.jobsOf (memberPromise members) members.length = ((members.map Timed.jobs).sum : Nat) :=
  jobsOf_promiseAmong (fun _ => rfl) members

section Filled

variable {ε ε' α β γ : Type} {members : List (Timed σ ε α)} {sort : Except ε α → β ⊕ Except ε' γ}
  {values : List β}

theorem joins_filled (finish : List β → Except ε' γ)
    (sorted : members.map (fun member => sort member.outcome) = values.map .inl) :
    Parallel.Joins sort finish members.length (memberPromise members)
      (.exactly (finish values) (longest (members.map Timed.duration)) (members.map Timed.jobs).sum) := by
  have size : values.length = members.length := by
    simpa using (congrArg List.length sorted).symm
  have slot : ∀ index (inside : index < members.length), ∃ value, values[index]? = some value ∧
      sort members[index].outcome = .inl value := by
    intro index inside
    have same := congrArg (·[index]?) sorted
    simp only [List.getElem?_map, List.getElem?_eq_getElem inside,
      List.getElem?_eq_getElem (size.symm ▸ inside), Option.map_some] at same
    exact ⟨values[index], List.getElem?_eq_getElem _, Option.some.inj same⟩
  constructor
  case critical =>
    intro pending nonempty within _
    obtain ⟨index, waiting⟩ := nonempty
    have inside := within index waiting
    refine ⟨index, waiting, ?_⟩
    rw [memberPromise_eq inside]
    exact Nat.cast_le.mpr (le_longest (List.mem_map_of_mem (List.getElem_mem inside)))
  case ends =>
    intro index inside outcome delay result may ends _
    rw [memberPromise_eq inside] at may
    obtain ⟨value, _, fills⟩ := slot index inside
    rw [may.1, fills] at ends
    exact absurd ends Sum.inl_ne_inr
  case fills =>
    intro found delays delay length fits last
    have each : ∀ index (inside : index < members.length),
        found[index]? = values[index]? ∧ members[index].duration ≤ delay := by
      intro index inside
      obtain ⟨value, stored, ⟨outcome, may, fills⟩, past⟩ := fits index inside
      rw [memberPromise_eq inside] at may
      obtain ⟨value', listed, fills'⟩ := slot index inside
      rw [may.1, fills'] at fills
      rw [stored, listed, Sum.inl.inj fills]
      exact ⟨rfl, may.2 ▸ past⟩
    refine ⟨congrArg finish (List.ext_getElem? fun index => ?_), ?_⟩
    · rcases Nat.lt_or_ge index members.length with inside | outside
      · exact (each index inside).1
      · rw [List.getElem?_eq_none (length ▸ outside), List.getElem?_eq_none (size ▸ outside)]
    · obtain ⟨index, inside, outcome, may⟩ := last
      rw [memberPromise_eq inside] at may
      refine le_antisymm ?_ (longest_le fun duration member => ?_)
      · exact may.2 ▸ le_longest (List.mem_map_of_mem (List.getElem_mem inside))
      · obtain ⟨timed, listed, rfl⟩ := List.mem_map.mp member
        obtain ⟨other, within, rfl⟩ := List.mem_iff_getElem.mp listed
        exact (each other within).2

end Filled

/-- Futures that all come to something come together to all of that, with the longest of them. -/
theorem joins_exactly {ε α : Type} (members : List (Timed σ ε α)) :
    Parallel.Joins .inl .ok members.length (memberPromise members)
      (.exactly (.ok (members.map Timed.outcome) : Except ε (List (Except ε α)))
        (longest (members.map Timed.duration)) (members.map Timed.jobs).sum) :=
  joins_filled .ok (by rw [List.map_map]; rfl)

/-- Members that keep exact promises keep one together, if their outcomes are all awaited. -/
theorem keeps_allSettled {ε α : Type} [Storable (Except ε α) σ] {setting : Setting}
    (simple : ¬setting.nested) {members : List (Timed σ ε α)}
    (keeps : ∀ member ∈ members,
      member.future.Keeps setting (.exactly member.outcome member.duration member.jobs)) :
    (Parallel.allSettled (members.map Timed.future)).Keeps setting
      (.exactly (.ok (members.map Timed.outcome) : Except ε (List (Except ε α)))
        (longest (members.map Timed.duration)) (jobsTogether members)) := by
  cases members with
  | nil => exact keeps_settled (.ok [])
  | cons first rest =>
    have nonempty : (first :: rest).map Timed.future ≠ [] := List.cons_ne_nil _ _
    have size : ((first :: rest).map Timed.future).length = (first :: rest).length := List.length_map _
    have joins := joins_exactly (first :: rest)
    rw [← size] at joins
    rw [Parallel.allSettled_eq nonempty]
    refine Parallel.keeps_joint joins _ (fun _ _ => .done) nonempty (keeps_among keeps)
      (fun nested => absurd nested simple) (fun _ _ _ _ _ _ never => absurd never (by simp)) ?_
    rw [size, jobsOf_memberPromise]
    rfl

theorem Settles.delivers {ε α : Type} {future : Future σ ε α} {outcome : Except ε α}
    {duration jobs : Nat} (settles : Settles future outcome duration jobs) (least : Nat) :
    future.Delivers least outcome duration jobs := by
  induction settles with
  | settled outcome => exact delivers_settled least outcome
  | settledAfter outcome delay => exact delivers_settledAfter least outcome delay
  | later _ ih => exact ih.later
  | bindOutcome _ _ ihFirst ihStep => exact ihFirst.bindOutcome ihStep
  | watched name _ ih => exact ih.watched name
  | allSettled _ ih =>
    exact fun setting simple enough =>
      keeps_allSettled simple fun member inside => ih member inside setting simple enough

end Deferred.Future
