import Deferred.Proofs.Debt.Joint

/-! Races: the first outcome to arrive settles the group, and later ones change nothing. -/

namespace Deferred.Parallel

variable {σ ε α : Type} {setting : Setting}

structure Competes (size : Nat) (promises : Nat → Promise ε α) (whole : Promise ε α) : Prop where
  critical : ∃ index < size, (promises index).latest ≤ whole.latest
  /-- A member may win if no other has to come before it. -/
  wins : ∀ index < size, ∀ outcome delay, (promises index).may outcome delay →
    (∀ other < size, (delay : ℕ∞) ≤ (promises other).latest) → whole.may outcome delay

def contest {size : Nat} {promises : Nat → Promise ε α} {whole : Promise ε α}
    (competes : Competes size promises whole) (setting : Setting) (debt : Debt) (jobs : ℕ∞)
    (start : Nat) : Protocol σ :=
  .joint (Finset.range size) debt jobs (start + whole.latest) (fun index => start + (promises index).latest)
    setting.patient (fun _ _ pending => pending = Finset.range size) (fun _ all => all)
    (by
      intro now content _ same
      subst same
      obtain ⟨index, inside, early⟩ := competes.critical
      exact ⟨index, Finset.mem_range.mpr inside, add_le_add_right early _⟩)

theorem keeps_race {futures : List (Future σ ε α)} {promises : Nat → Promise ε α} {whole : Promise ε α}
    (competes : Competes futures.length promises whole)
    (keeps : ∀ (index : Nat) (future : Future σ ε α), futures[index]? = some future →
      future.Keeps setting (promises index))
    (timeless : setting.nested → ∀ index, Timeless (promises index)) (impatient : ¬setting.patient)
    (count : whole.jobs = jobsOf promises futures.length) :
    (race futures).Keeps setting whole := by
  intro world debt now jobs next timely pays
  have valid : (contest competes setting debt jobs now : Protocol σ).valid now (.ofSize 0)
      (Finset.range futures.length) :=
    ⟨fun settled => absurd settled (by simp [Group.ofSize]), fun _ => rfl⟩
  refine pays_gather (contest competes setting debt jobs now) rfl rfl rfl
    (fun patient => absurd patient impatient) (fun nested index => ?_) valid timely
    fun later extended => ?_
  · show (now : ℕ∞) + (promises index).latest = ⊤
    rw [(timeless nested index).1, add_top]
  · have known : (later ++ [contest competes setting debt jobs now])[later.length]? = _ :=
      List.getElem?_concat_length ..
    rw [debts_range _ _ _ rfl, count]
    refine pays_startAll known (fun _ => rfl) timeless ?_ futures 0 (Nat.le_of_eq (Nat.zero_add _))
      (fun offset future found => by rw [zero_add]; exact keeps offset future found) (le_refl now)
      (.inr rfl) (List.prefix_refl _)
    intro further extended' index inside outcome delay may
    rw [← zero_add ({⟨later.length, index⟩} : Multiset Debt)]
    refine Arrives.pays (World.getElem?_extend extended' known) ?_ (by simp)
      fun content pending expects => ?_
    · rw [Nat.cast_add]
      exact add_le_add_right ((promises index).le_latest may) _
    have shape : ∀ content pending, (contest competes setting debt jobs now : Protocol σ).valid
        (now + delay) content pending ↔ _ := fun _ _ => Iff.rfl
    cases settled : content.settled with
    | true => exact arrives_late shape expects settled settled (changes_settled settled) (.record _)
    | false =>
      refine arrives_settling shape settled rfl (fun patient => absurd patient impatient)
        (changes_unsettled settled) (Idle.andThen (.record _) ?_)
      have all := expects.valid.2 settled
      refine (pays outcome delay ?_).extend
        ((extended.trans (List.prefix_append ..)).trans extended')
      apply competes.wins index inside outcome delay may
      intro other within
      have late := expects.timely other (all ▸ Finset.mem_range.mpr within)
      rw [Nat.cast_add] at late
      exact (ENat.add_le_add_iff_left (ENat.natCast_ne_top now)).mp late

end Deferred.Parallel
