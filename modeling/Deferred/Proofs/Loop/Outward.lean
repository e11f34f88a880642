import Deferred.Proofs.Loop.Pool

/-! What goes on within a group is nobody's concern but its members'. Their scripts look at the group, write it
back and note that; nothing else on the loop is touched before they go on. -/

namespace Deferred

variable {σ : Type}

def Event.ofGroup : Event → Bool
  | .slotFilled _ _ | .allFailed _ | .anySucceeded _ | .raceSettled _ | .lateDiscarded _ => true
  | .diverted _ | .armed _ _ | .fired _ | .started _ _ | .resolved _ _ _ | .failed _ _ _ | .ruleDefined
  | .invalidLimit _ _ _ | .note _ => false

def outward (journal : List (Nat × Event)) : List (Nat × Event) :=
  journal.filter fun entry => !entry.2.ofGroup

theorem outward_cons_of_group (time : Nat) {event : Event} (inner : event.ofGroup = true)
    (journal : List (Nat × Event)) : outward ((time, event) :: journal) = outward journal :=
  List.filter_cons_of_neg (by simpa using inner)

theorem outward_cons {journal journal' : List (Nat × Event)} (same : outward journal = outward journal')
    (entry : Nat × Event) : outward (entry :: journal) = outward (entry :: journal') := by
  simp only [outward, List.filter_cons] at same ⊢
  rw [same]

/-- A script that finds a group as `before` first of all makes it `after`, and goes on with `rest`. Nobody
outside of the group sees anything of that. -/
def Script.Alters (script : Script σ) (group : Nat) (before after : Group σ) (rest : Script σ) :
    Prop :=
  ∀ (host : Host σ) (loop : Loop σ), group < loop.groups.size → loop.group group = before →
    ∃ journal, outward journal = outward loop.journal ∧ script.run host loop =
      rest.run host { loop with groups := loop.groups.setIfInBounds group after, journal }

namespace Script.Alters

variable {script rest : Script σ} {group : Nat} {before after : Group σ}

theorem refl (script : Script σ) : script.Alters group before before script := by
  intro host loop inside found
  refine ⟨loop.journal, rfl, ?_⟩
  have same : loop.groups.setIfInBounds group before = loop.groups := by
    rw [← found]
    simp [Loop.group, Array.setIfInBounds, inside]
  rw [same]

theorem look {next : Group σ → Script σ} (alters : (next before).Alters group before after rest) :
    (Script.look group next).Alters group before after rest := by
  intro host loop inside found
  simp only [Script.run, found]
  exact alters host loop inside found

theorem record {event : Event} {next : Script σ} (inner : event.ofGroup = true)
    (alters : next.Alters group before after rest) :
    (Script.record event next).Alters group before after rest := by
  intro host loop inside found
  obtain ⟨journal, same, ran⟩ := alters host (loop.record event) inside found
  exact ⟨journal, same.trans (outward_cons_of_group _ inner _), ran⟩

theorem put {content : Group σ} {next : Script σ} (alters : next.Alters group content after rest) :
    (Script.put group content next).Alters group before after rest := by
  intro host loop inside _
  have written : (loop.put group content).group group = content := by
    simp [Loop.put, Loop.group, inside]
  obtain ⟨journal, same, ran⟩ := alters host (loop.put group content) (by simpa [Loop.put]) written
  exact ⟨journal, same, by simpa [Loop.put, Script.run] using ran⟩

theorem andThen (alters : script.Alters group before after rest) (last : Script σ) :
    (script.andThen last).Alters group before after (rest.andThen last) := by
  intro host loop inside found
  obtain ⟨journal, same, ran⟩ := alters host loop inside found
  exact ⟨journal, same, by rw [run_andThen, run_andThen, ran]⟩

end Script.Alters

def Script.Tells (script : Script σ) : Prop :=
  ∀ (group : Nat) (content : Group σ), script.Alters group content content .done

theorem Script.Tells.done : (.done : Script σ).Tells :=
  fun _ _ => .refl _

theorem Script.Tells.record {event : Event} (inner : event.ofGroup = true) :
    (.record event .done : Script σ).Tells :=
  fun _ _ => .record inner (.refl _)

theorem Script.Tells.record_if {event : Event} (inner : event.ofGroup = true) (won : Bool) :
    (if won then .record event .done else .done : Script σ).Tells := by
  cases won with
  | false => exact .done
  | true => exact .record inner

def Script.Late (script : Script σ) (group : Nat) : Prop :=
  ∀ content : Group σ, content.settled = true →
    ∃ after : Group σ, after.settled = true ∧ script.Alters group content after .done

end Deferred
