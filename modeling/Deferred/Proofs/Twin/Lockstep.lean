import Deferred.Proofs.Loop.Confined
import Deferred.Proofs.Twin.Discreet

/-! Two loops that mirror each other stay so, whatever is done on both of them: turns, also those that jobs make
themselves, and between them scripts that keep to the groups in which both hold the same. Scripts that do not look
into the groups of others do not write there either. -/

namespace Deferred

variable {σ : Type}

theorem Script.Discreet.confined {own : Nat → Prop} {script : Script σ} (discreet : script.Discreet own) :
    script.Confined True own := by
  induction discreet with
  | done => exact .done
  | stuck => exact .stuck
  | submit _ _ ihJob ih => exact .submit ihJob ih
  | now _ ih => exact .now ih
  | record _ ih => exact .record ih
  | review _ _ ih => exact .review ih
  | gather _ ih => exact .gather ih
  | look _ _ ih => exact .look ih
  | put owned _ ih => exact .put owned ih
  | configure _ ih => exact .configure ih
  | inspect _ ih => exact .inspect ih
  | turn _ ih => exact .turn trivial ih
  | drain _ ih => exact .drain trivial ih
  | hold _ ih => exact .hold ih
  | wake _ _ ihRest ih => exact .wake ihRest ih
  | await _ ih => exact .await trivial ih
  | budget _ ih => exact .budget ih

namespace Loop

theorem Discreet.orderly {loop : Loop σ} (discreet : loop.Discreet) (punctual : loop.Punctual) : loop.Orderly := by
  refine ⟨punctual, fun task queued => ?_, fun waker rest given => ?_⟩
  · apply Script.Discreet.confined
    rcases Multiset.mem_add.mp queued with queued | armed
    · rcases Multiset.mem_add.mp queued with ready | low
      · obtain ⟨job, member, rfl⟩ := Multiset.mem_map.mp ready
        exact discreet.ready job member
      · obtain ⟨job, member, rfl⟩ := Multiset.mem_map.mp low
        exact discreet.low job member
    · obtain ⟨timer, member, rfl⟩ := Multiset.mem_map.mp armed
      exact discreet.timers timer member
  · rw [rest?_eq, Option.join_eq_some_iff] at given
    exact (discreet.wakers rest (List.mem_of_getElem? given)).confined

/-- A loop after some turns, between which other scripts have been run that keep to the first groups and look at
no others. -/
abbrev Attains (bound groups : Nat) (loop later : Loop σ) : Prop :=
  loop.Ensues (fun script => script.Discreet (· < groups)) bound later

variable {bound groups : Nat} {loop loop' later : Loop σ}

theorem Ensues.perform {admitted : Script σ → Prop} {script : Script σ} (admits : admitted script)
    (ran : loop.perform bound script = some later) : loop.Ensues admitted bound later :=
  .run .refl admits ran

theorem Mirror.attains {rules : List (Rule σ)} (mirror : loop.Mirror rules 0 loop')
    (shared : ∀ number < groups, rules[number]? = some .same) (attained : loop.Attains bound groups later) :
    ∃ further later', rules <+: further ∧ loop'.Attains bound groups later' ∧ later.Mirror further 0 later' := by
  induction attained with
  | refl => exact ⟨rules, loop', List.prefix_refl rules, .refl, mirror⟩
  | @turn depth later outcome next _ turned ih =>
    obtain ⟨further, later', extended, attained', mirror⟩ := ih
    have agree := turnOn_agree (mirrors_hostAt bound depth) mirror
    rw [turned] at agree
    generalize ran : later'.turnOn (hostAt bound depth) = result at agree
    cases agree with
    | some mirrorLater =>
      obtain ⟨last, extended', mirror⟩ := mirrorLater
      exact ⟨last, _, extended.trans extended', attained'.turn ran, mirror⟩
  | @run depth later next script _ discreet ran ih =>
    obtain ⟨further, later', extended, attained', mirror⟩ := ih
    have uniform : script.Uniform further :=
      discreet.uniform fun number inside => Twin.getElem?_extend extended (shared number inside)
    have mirror' : later.Mirror further (0 + 0) later' := by
      rwa [add_zero]
    have ends := Twin.run (mirrors_hostAt bound depth) uniform mirror'
    rw [ran] at ends
    generalize ran' : script.run (hostAt bound depth) later' = result at ends
    cases ends with
    | some mirrorLater =>
      obtain ⟨last, extended', mirror⟩ := mirrorLater
      exact ⟨last, _, extended.trans extended', attained'.run discreet ran', mirror⟩

theorem Mirror.idle {rules : List (Rule σ)} {held : Multiset Token} (mirror : loop.Mirror rules held loop')
    (idle : loop.next = .idle) : loop'.next = .idle := by
  have twins := mirror.next
  rw [idle] at twins
  generalize loop'.next = duty at twins
  cases twins with
  | idle => rfl

end Loop

end Deferred
