import Deferred.Proofs.Debt.Ledger
import Deferred.Proofs.Loop.Outward

/-! A member comes to its group. Its script looks at the group, writes it back, and either leaves it
waiting or settles it and goes on with whatever waits for the group. -/

namespace Deferred

variable {σ : Type}

namespace Script.Changes

variable {group : Nat} {before after : Group σ} {rest : Script σ}

theorem refl (script : Script σ) : script.Changes group before before script := by
  intro host loop inside found
  refine ⟨loop.journal, ?_⟩
  have same : loop.groups.setIfInBounds group before = loop.groups := by
    rw [← found]
    simp [Loop.group, Array.setIfInBounds, inside]
  rw [same]

theorem look {next : Group σ → Script σ}
    (changes : (next before).Changes group before after rest) :
    (Script.look group next).Changes group before after rest := by
  intro host loop inside found
  simp only [Script.run, found]
  exact changes host loop inside found

theorem record {event : Event} {next : Script σ} (changes : next.Changes group before after rest) :
    (Script.record event next).Changes group before after rest :=
  fun host loop inside found => changes host (loop.record event) inside found

theorem put {content : Group σ} {next : Script σ}
    (changes : next.Changes group content after rest) :
    (Script.put group content next).Changes group before after rest := by
  intro host loop inside found
  have written : (loop.put group content).group group = content := by
    rw [loop.group_put content inside, Function.update_self]
  obtain ⟨journal, same⟩ := changes host (loop.put group content) (by simpa [Loop.put]) written
  exact ⟨journal, by simpa [Loop.put, Script.run] using same⟩

end Script.Changes

theorem Script.Alters.changes {script rest : Script σ} {group : Nat} {before after : Group σ}
    (alters : script.Alters group before after rest) : script.Changes group before after rest := by
  intro host loop inside found
  obtain ⟨journal, -, ran⟩ := alters host loop inside found
  exact ⟨journal, ran⟩

inductive Arrives (setting : Setting) (world : World σ) (protocol : Protocol σ)
    (debts : Multiset Debt) (now : Nat) (jobs : ℕ∞) (number member : Nat) (content : Group σ)
    (pending : Finset Nat) (script : Script σ) : Prop where
  | waits (after : Group σ) (rest : Script σ) (changes : script.Changes number content after rest)
      (valid : protocol.valid now after (pending.erase member))
      (same : after.settled = content.settled) (pays : Pays setting world debts now jobs rest)
  | settles (after : Group σ) (rest : Script σ) (changes : script.Changes number content after rest)
      (valid : protocol.valid now after (pending.erase member)) (was : content.settled = false)
      (is : after.settled = true)
      (pays : Pays setting world (debts + protocol.onward) now (jobs + protocol.jobs) rest)

theorem Arrives.pays {setting : Setting} {world : World σ} {protocol : Protocol σ}
    {debts : Multiset Debt} {now : Nat} {jobs : ℕ∞} {number member : Nat} {script : Script σ}
    (known : world[number]? = some protocol) (timely : (now : ℕ∞) ≤ protocol.latest member)
    (others : ¬setting.nested → ∀ debt ∈ debts, (now : ℕ∞) ≤ world.latest debt)
    (comes : ∀ content pending, protocol.Expects now member content pending →
      Arrives setting world protocol debts now jobs number member content pending script) :
    Pays setting world (debts + {⟨number, member⟩}) now jobs script := by
  have step : ∀ content pending, ∃ (after : Group σ) (rest : Script σ),
      protocol.Expects now member content pending →
        script.Changes number content after rest ∧
          protocol.valid now after (pending.erase member) ∧
          (content.settled = true → after.settled = true) ∧
          (after.settled = content.settled → Pays setting world debts now jobs rest) ∧
          (content.settled = false → after.settled = true →
            Pays setting world (debts + protocol.onward) now (jobs + protocol.jobs) rest) := by
    intro content pending
    by_cases expects : protocol.Expects now member content pending
    · cases comes content pending expects with
      | waits after rest changes valid same pays =>
        refine ⟨after, rest, fun _ => ⟨changes, valid, fun was => same.trans was, fun _ => pays, ?_⟩⟩
        intro was is
        rw [same, was] at is
        exact absurd is (by simp)
      | settles after rest changes valid was is pays =>
        refine ⟨after, rest, fun _ => ⟨changes, valid, fun _ => is, fun same => ?_, fun _ _ => pays⟩⟩
        rw [is, was] at same
        exact absurd same (by simp)
    · exact ⟨content, .done, fun expected => absurd expected expects⟩
  choose after rest comes using step
  exact .arrive after rest known timely others
    (fun content pending expects => (comes content pending expects).1)
    (fun content pending expects => (comes content pending expects).2.1)
    (fun content pending expects => (comes content pending expects).2.2.1)
    (fun content pending expects => (comes content pending expects).2.2.2.1)
    fun content pending expects => (comes content pending expects).2.2.2.2

end Deferred
