import Deferred.Future.WaitFor
import Deferred.Future.Watched
import Deferred.Proofs.Debt.Basic

/-! What a future promises: the outcomes that it may hand on and how long each takes, the time by which
it has handed one on, and the jobs that it takes. A future keeps a promise if its script pays the debt
of whoever waits for it, given that the continuation pays that debt for every outcome and time that
are promised. -/

universe u v

namespace Deferred

variable {σ ε ε' : Type} {α : Type u} {β : Type v} {setting : Setting}

abbrev Arrival (ε : Type) (α : Type u) : Type u :=
  Option (Except ε α × Nat)

def Arrival.after (delay : Nat) (arrival : Arrival ε α) : Arrival ε α :=
  arrival.map (Prod.map id (delay + ·))

theorem Arrival.after_zero (arrival : Arrival ε α) : arrival.after 0 = arrival := by
  match arrival with
  | none => rfl
  | some (outcome, time) => simp [after]

theorem Arrival.after_after (delay delay' : Nat) (arrival : Arrival ε α) :
    (arrival.after delay').after delay = arrival.after (delay + delay') := by
  match arrival with
  | none => rfl
  | some (outcome, time) => simp [after, Nat.add_assoc]

structure Promise (ε : Type) (α : Type u) where
  /-- The outcomes that may come, and after what time. -/
  may : Except ε α → Nat → Prop
  latest : ℕ∞
  jobs : ℕ∞
  le_latest : ∀ {outcome delay}, may outcome delay → (delay : ℕ∞) ≤ latest

namespace Promise

def exactly (outcome : Except ε α) (delay jobs : Nat) : Promise ε α where
  may found after := found = outcome ∧ after = delay
  latest := delay
  jobs := jobs
  le_latest come := le_of_eq (congrArg _ come.2)

def never (jobs : Nat) : Promise ε α where
  may _ _ := False
  latest := ⊤
  jobs := jobs
  le_latest := False.elim

def arriving : Arrival ε α → Nat → Promise ε α
  | some (outcome, delay), jobs => .exactly outcome delay jobs
  | none, jobs => .never jobs

theorem arriving_may {arrival : Arrival ε α} {jobs : Nat} {outcome : Except ε α} {delay : Nat} :
    (arriving arrival jobs).may outcome delay ↔ arrival = some (outcome, delay) := by
  cases arrival with
  | none => simp [arriving, never]
  | some arrived => simp [arriving, exactly, Prod.ext_iff, eq_comm]

theorem arriving_jobs (arrival : Arrival ε α) (jobs : Nat) : (arriving arrival jobs).jobs = jobs := by
  cases arrival with
  | none => rfl
  | some arrived => rfl

def sometime (possible : Except ε α → Prop) : Promise ε α where
  may found _ := possible found
  latest := ⊤
  jobs := ⊤
  le_latest _ := le_top

structure Weaker (setting : Setting) (weak strong : Promise ε α) : Prop where
  may : ∀ outcome delay, strong.may outcome delay → weak.may outcome delay
  latest : strong.latest ≤ weak.latest
  jobs : strong.jobs = weak.jobs ∨ setting.nested ∧ weak.jobs = ⊤

end Promise

namespace Future

/-- The script of a future pays what is owed, if its continuation does. -/
def Keeps (setting : Setting) (future : Future σ ε α) (promise : Promise ε α) : Prop :=
  ∀ ⦃world : World σ⦄ ⦃debt : Debt⦄ ⦃now : Nat⦄ ⦃jobs : ℕ∞⦄ ⦃next : Except ε α → Script σ⦄,
    now + promise.latest ≤ world.latest debt →
      (∀ outcome delay, promise.may outcome delay →
        Pays setting world {debt} (now + delay) jobs (next outcome)) →
        Pays setting world {debt} now (promise.jobs + jobs) (future.run next)

theorem Keeps.weaken {future : Future σ ε α} {strong weak : Promise ε α}
    (keeps : future.Keeps setting strong) (weaker : weak.Weaker setting strong) :
    future.Keeps setting weak := by
  intro world debt now jobs next timely pays
  have early : (now : ℕ∞) + strong.latest ≤ world.latest debt :=
    (add_le_add_right weaker.latest _).trans timely
  have paid := keeps early fun outcome delay may => pays outcome delay (weaker.may outcome delay may)
  rcases weaker.jobs with same | ⟨nested, unknown⟩
  · rwa [← same]
  · rw [unknown, top_add]
    exact .forget nested paid

theorem pays_submit {world : World σ} {debt : Debt} {now : Nat} {jobs : ℕ∞} {lane : Lane}
    {job : Unit → Script σ} (pays : Pays setting world {debt} (lane.due now) jobs (job ())) :
    Pays setting world {debt} now (1 + jobs) (.submit lane job .done) := by
  have ended : Pays setting world 0 now 0 .done := .done
  have submitted := Pays.submit (fun _ => Multiset.singleton_ne_zero debt) pays ended
  rwa [add_zero, add_zero, add_comm] at submitted

theorem keeps_settledAfter (outcome : Except ε α) (delay : Nat) :
    (settledAfter outcome delay : Future σ ε α).Keeps setting (.exactly outcome delay 1) :=
  fun _ _ _ _ _ _ pays => pays_submit (pays outcome delay ⟨rfl, rfl⟩)

theorem keeps_settled (outcome : Except ε α) :
    (settled outcome : Future σ ε α).Keeps setting (.exactly outcome 0 1) :=
  fun _ _ _ _ _ _ pays => pays_submit (pays outcome 0 ⟨rfl, rfl⟩)

theorem Keeps.later {thunk : Unit → Future σ ε α} {made whole : Promise ε α}
    (keeps : (thunk ()).Keeps setting made)
    (may : ∀ outcome delay, made.may outcome delay → whole.may outcome delay)
    (early : made.latest ≤ whole.latest) (count : whole.jobs = 1 + made.jobs) :
    (Future.later thunk).Keeps setting whole := by
  intro world debt now jobs next timely pays
  rw [count, add_assoc]
  exact pays_submit (keeps ((add_le_add_right early _).trans timely) fun outcome delay come =>
    pays outcome delay (may outcome delay come))

theorem Keeps.bindOutcome {first : Future σ ε α} {step : Except ε α → Future σ ε' β}
    {before : Promise ε α} {whole : Promise ε' β} {jobs : ℕ∞} (keeps : first.Keeps setting before)
    (early : before.latest ≤ whole.latest) (count : whole.jobs = 1 + before.jobs + jobs)
    (follows : ∀ outcome delay, before.may outcome delay → ∃ after, (step outcome).Keeps setting after ∧
      (∀ outcome' delay', after.may outcome' delay' → whole.may outcome' (delay + delay')) ∧
        delay + after.latest ≤ whole.latest ∧ after.jobs = jobs) :
    (first.bindOutcome step).Keeps setting whole := by
  intro world debt now more next timely pays
  rw [count, add_assoc, add_assoc]
  refine pays_submit (keeps ((add_le_add_right early _).trans timely) fun outcome delay may => ?_)
  obtain ⟨after, keeps', may', late, rfl⟩ := follows outcome delay may
  refine keeps' ?_ fun outcome' delay' come => ?_
  · rw [Nat.cast_add, add_assoc]
    exact (add_le_add_right late _).trans timely
  · rw [add_assoc]
    exact pays outcome' (delay + delay') (may' outcome' delay' come)

theorem keeps_never (lenient : setting.lenient) : (never : Future σ ε α).Keeps setting (.never 0) := by
  intro world debt now jobs next timely _
  have endless : ∀ owed ∈ ({debt} : Multiset Debt), world.latest owed = ⊤ := by
    intro owed member
    rw [Multiset.mem_singleton.mp member]
    exact top_le_iff.mp ((add_top (now : ℕ∞)).symm.le.trans timely)
  have dropped : Pays setting world (0 + {debt}) now (0 + jobs) .done :=
    .waive {debt} jobs lenient endless .done
  rw [zero_add] at dropped
  exact dropped

theorem Keeps.watched [Shown ε] {α : Type} [Shown α] {future : Future σ ε α} {promise : Promise ε α}
    (name : String) (keeps : future.Keeps setting promise) :
    (future.watched name).Keeps setting promise :=
  fun _ _ _ _ _ timely pays =>
    .now (keeps timely fun outcome delay may => .now (.record (pays outcome delay may)))

theorem Keeps.bounded {future : Nat → Future σ ε α} {promise : Promise ε α}
    (keeps : (future setting.bound).Keeps setting promise) :
    (Future.bounded future).Keeps setting promise :=
  fun _ _ _ _ _ timely pays => .budget (keeps timely pays)

end Future

end Deferred
