import Deferred.Proofs.Debt.Wait

/-! Futures of which it is known what they come to, when, and after how many jobs. The laws for the
sequential combinators follow the recursion of their definitions. -/

universe u v

namespace Deferred.Future

variable {σ ε ε' : Type} {α : Type u} {β : Type v} {least duration jobs : Nat}

section Exactly

variable {setting : Setting} {outcome : Except ε α}

theorem Keeps.later_exactly {thunk : Unit → Future σ ε α}
    (keeps : (thunk ()).Keeps setting (.exactly outcome duration jobs)) :
    (Future.later thunk).Keeps setting (.exactly outcome duration (1 + jobs)) :=
  keeps.later (fun _ _ come => come) (le_refl _) (Nat.cast_add 1 jobs)

theorem Keeps.bindOutcome_exactly {first : Future σ ε α} {step : Except ε α → Future σ ε' β}
    {outcome' : Except ε' β} {duration' jobs' : Nat}
    (keeps : first.Keeps setting (.exactly outcome duration jobs))
    (follows : (step outcome).Keeps setting (.exactly outcome' duration' jobs')) :
    (first.bindOutcome step).Keeps setting
      (.exactly outcome' (duration + duration') (1 + jobs + jobs')) := by
  have count : (Promise.exactly outcome' (duration + duration') (1 + jobs + jobs')).jobs =
      1 + (jobs : ℕ∞) + jobs' := by simp [Promise.exactly]
  refine keeps.bindOutcome (Nat.cast_le.mpr (Nat.le_add_right duration duration')) count
    fun found after may => ?_
  obtain ⟨rfl, rfl⟩ := may
  refine ⟨_, follows, fun _ _ come => ⟨come.1, congrArg _ come.2⟩, ?_, rfl⟩
  exact le_of_eq (Nat.cast_add ..).symm

end Exactly

/-- A future comes to an outcome after some time and some jobs, unless jobs make turns themselves. The
bound that the host sets on searches is not below `least`. -/
def Delivers (least : Nat) (future : Future σ ε α) (outcome : Except ε α) (duration jobs : Nat) : Prop :=
  ∀ setting : Setting, ¬setting.nested → least ≤ setting.bound →
    future.Keeps setting (.exactly outcome duration jobs)

theorem delivers_settled (least : Nat) (outcome : Except ε α) :
    (settled outcome : Future σ ε α).Delivers least outcome 0 1 :=
  fun _ _ _ => keeps_settled outcome

theorem delivers_settledAfter (least : Nat) (outcome : Except ε α) (delay : Nat) :
    (settledAfter outcome delay : Future σ ε α).Delivers least outcome delay 1 :=
  fun _ _ _ => keeps_settledAfter outcome delay

theorem Delivers.later {thunk : Unit → Future σ ε α} {outcome : Except ε α}
    (delivers : (thunk ()).Delivers least outcome duration jobs) :
    (Future.later thunk).Delivers least outcome duration (1 + jobs) :=
  fun setting simple enough => (delivers setting simple enough).later_exactly

theorem Delivers.bindOutcome {first : Future σ ε α} {step : Except ε α → Future σ ε' β}
    {outcome : Except ε α} {outcome' : Except ε' β} {duration' jobs' : Nat}
    (delivers : first.Delivers least outcome duration jobs)
    (follows : (step outcome).Delivers least outcome' duration' jobs') :
    (first.bindOutcome step).Delivers least outcome' (duration + duration') (1 + jobs + jobs') :=
  fun setting simple enough =>
    (delivers setting simple enough).bindOutcome_exactly (follows setting simple enough)

theorem Delivers.watched {ε α : Type} [Shown ε] [Shown α] {future : Future σ ε α}
    {outcome : Except ε α} (name : String) (delivers : future.Delivers least outcome duration jobs) :
    (future.watched name).Delivers least outcome duration jobs :=
  fun setting simple enough => (delivers setting simple enough).watched name

theorem delivers_bounded {future : Nat → Future σ ε α} {outcome : Except ε α}
    (delivers : ∀ bound, least ≤ bound → (future bound).Delivers least outcome duration jobs) :
    (Future.bounded future).Delivers least outcome duration jobs :=
  fun setting simple enough => (delivers setting.bound enough setting simple enough).bounded

/-- On a loop where nothing else is to be done, waiting for such a future gives its outcome after just
that time and those jobs, however the loop is configured. -/
theorem Delivers.waitFor {α : Type} [Storable (Except ε α) σ] {future : Future σ ε α}
    {outcome : Except ε α} (delivers : future.Delivers least outcome duration jobs) {bound : Nat}
    (enough : least + 2 * jobs < bound) {loop : Loop σ} (vacant : loop.Vacant) :
    ∃ after, loop.waitFor bound future = some ⟨some outcome, jobs, after⟩ ∧
      after.clock = loop.clock + duration ∧ after.Vacant := by
  have keeps := delivers (.waiting bound loop.groups.size) not_false (by
    simp only [Setting.waiting]
    omega)
  obtain ⟨after, waited, empty, clock⟩ := keeps.waitFor vacant (by omega)
  exact ⟨after, waited, clock, empty⟩

end Deferred.Future
