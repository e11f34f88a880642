import Deferred.Proofs.Twin.Alike

/-! Scripts that keep to groups of their own. They look at the groups that they were given and at those that they
make, and see nothing in the journal of what goes on within groups. A loop on which only such scripts wait is
uniform. -/

namespace Deferred

variable {σ β : Type}

/-- A script that only looks at groups that satisfy `own` and at new ones, and only writes to those. -/
inductive Script.Discreet : (own : Nat → Prop) → Script σ → Prop
  | done {own} : Discreet own .done
  | stuck {own} : Discreet own .stuck
  | submit {own lane job next} (discreetJob : Discreet own (job ())) (discreet : Discreet own next) :
      Discreet own (.submit lane job next)
  | now {own next} (discreet : ∀ time, Discreet own (next time)) : Discreet own (.now next)
  | record {own event next} (discreet : Discreet own next) : Discreet own (.record event next)
  | review {own next} (blind : ∀ journal journal', outward journal = outward journal' → next journal = next journal')
      (discreet : ∀ journal, Discreet own (next journal)) : Discreet own (.review next)
  | gather {own content next}
      (discreet : ∀ number, Discreet (fun other => own other ∨ other = number) (next number)) :
      Discreet own (.gather content next)
  | look {own number next} (owned : own number) (discreet : ∀ content, Discreet own (next content)) :
      Discreet own (.look number next)
  | put {own number content next} (owned : own number) (discreet : Discreet own next) :
      Discreet own (.put number content next)
  | configure {own config next} (discreet : Discreet own next) : Discreet own (.configure config next)
  | inspect {own next} (discreet : ∀ stats config, Discreet own (next stats config)) : Discreet own (.inspect next)
  | turn {own next} (discreet : ∀ turn, Discreet own (next turn)) : Discreet own (.turn next)
  | drain {own next} (discreet : ∀ count, Discreet own (next count)) : Discreet own (.drain next)
  | hold {own next} (discreet : ∀ waker, Discreet own (next waker)) : Discreet own (.hold next)
  | wake {own waker rest next} (discreetRest : Discreet own (rest ())) (discreet : Discreet own next) :
      Discreet own (.wake waker rest next)
  | await {own waker next} (discreet : ∀ woken, Discreet own (next woken)) : Discreet own (.await waker next)
  | budget {own next} (discreet : ∀ bound, Discreet own (next bound)) : Discreet own (.budget next)

def Rule.same : Rule σ :=
  fun _ _ content content' => content = content'

namespace Script.Discreet

theorem uniform {own : Nat → Prop} {script : Script σ} (discreet : script.Discreet own) {rules : List (Rule σ)}
    (owned : ∀ number, own number → rules[number]? = some .same) : script.Uniform rules := by
  unfold Script.Uniform
  induction discreet generalizing rules with
  | done => exact .done
  | stuck => exact .stuck
  | @submit own lane job next _ _ ihJob ih =>
    have both : Twin rules (0 + 0) (.submit lane job next) (.submit lane job next) :=
      .submit (ihJob owned) (ih owned)
    rwa [add_zero] at both
  | now _ ih => exact .now fun time => ih time owned
  | record _ ih => exact .record (ih owned)
  | review blind _ ih => exact .review fun journal journal' same => blind journal journal' same ▸ ih journal owned
  | @gather own content next _ ih =>
    have gathered : Twin rules (0 + 0) (.gather content next) (.gather content next) := by
      refine .gather .same 0 (fun _ => rfl) fun later extended => ih later.length fun number known => ?_
      rcases known with known | rfl
      · exact Twin.getElem?_extend (extended.trans (List.prefix_append ..)) (owned number known)
      · exact List.getElem?_concat_length
    rwa [add_zero] at gathered
  | look known _ ih =>
    refine Twin.meet (owned _ known) fun kept content content' same _ => ?_
    obtain rfl : content = content' := same
    exact ⟨⟨content, content, kept, 0, _, _⟩, ⟨.look (.refl _), .look (.refl _), rfl, le_refl _⟩, ih content owned⟩
  | @put own number content next known _ ih =>
    refine Twin.meet (owned number known) fun kept before before' _ _ => ?_
    exact ⟨⟨content, content, kept, 0, next, next⟩, ⟨.put (.refl _), .put (.refl _), rfl, le_refl _⟩, ih owned⟩
  | configure _ ih => exact .configure (ih owned)
  | inspect _ ih => exact .inspect fun stats config => ih stats config owned
  | turn _ ih =>
    exact .turn fun later turn extended =>
      ih turn fun number known => Twin.getElem?_extend extended (owned number known)
  | drain _ ih =>
    exact .drain fun later count extended =>
      ih count fun number known => Twin.getElem?_extend extended (owned number known)
  | hold _ ih => exact .hold fun waker => ih waker owned
  | @wake own waker rest next _ _ ihRest ih =>
    have both : Twin rules (0 + 0) (.wake waker rest next) (.wake waker rest next) :=
      .wake (ihRest owned) (ih owned)
    rwa [add_zero] at both
  | await _ ih =>
    exact .await fun later woken extended =>
      ih woken fun number known => Twin.getElem?_extend extended (owned number known)
  | budget _ ih => exact .budget fun bound => ih bound owned

end Script.Discreet

theorem Paired.refl {related : Multiset Token → β → β → Prop} {list : List β}
    (each : ∀ member ∈ list, related 0 member member) : Paired related 0 list list := by
  induction list with
  | nil => exact .nil
  | cons member list ih =>
    have paired : Paired related (0 + 0) (member :: list) (member :: list) :=
      .cons (each member List.mem_cons_self) (ih fun other among => each other (List.mem_cons_of_mem _ among))
    rwa [add_zero] at paired

namespace Loop

structure Discreet (loop : Loop σ) : Prop where
  ready : ∀ job ∈ loop.ready.toList, (job.script ()).Discreet (· < loop.groups.size)
  low : ∀ job ∈ loop.low.toList, (job.script ()).Discreet (· < loop.groups.size)
  timers : ∀ timer ∈ loop.timers, (timer.job.script ()).Discreet (· < loop.groups.size)
  wakers : ∀ rest, some rest ∈ loop.wakers.toList → (rest ()).Discreet (· < loop.groups.size)

/-- All loops on which such scripts wait are uniform, whatever their groups hold. -/
theorem Discreet.uniform {loop : Loop σ} (discreet : loop.Discreet) :
    loop.Uniform (List.replicate loop.groups.size .same) := by
  have uniform : ∀ {script : Script σ}, script.Discreet (· < loop.groups.size) →
      script.Uniform (List.replicate loop.groups.size .same) := fun discreet =>
    discreet.uniform fun _ inside => List.getElem?_replicate_of_lt inside
  refine ⟨⟨0, 0, 0, 0, fun _ => 0⟩, {
    config := rfl, streak := rfl, armed := rfl, clock := rfl, issued := rfl, journal := rfl
    ready := .refl fun job member => ⟨rfl, rfl, uniform (discreet.ready job member)⟩
    low := .refl fun job member => ⟨rfl, rfl, uniform (discreet.low job member)⟩
    timers := .refl fun timer member => ⟨rfl, rfl, rfl, rfl, uniform (discreet.timers timer member)⟩
    wakers := .refl ?_, size := List.length_replicate.symm, size' := List.length_replicate.symm
    groups := ?_, balance := ?_ }⟩
  · rintro (_ | rest) member
    · exact .none
    · exact .some (uniform (discreet.wakers rest member))
  · intro number rule known
    obtain rfl := List.eq_of_mem_replicate (List.mem_of_getElem? known)
    rfl
  · simpa [Shares.total] using Minted.zero _

theorem discreet_fresh (config : Config) : ({ config } : Loop σ).Discreet where
  ready _ member := absurd member List.not_mem_nil
  low _ member := absurd member List.not_mem_nil
  timers _ member := absurd member List.not_mem_nil
  wakers _ member := absurd member List.not_mem_nil

theorem forall_mem_push {queue : Queue β} {holds : β → Prop} {member : β}
    (each : ∀ other ∈ queue.toList, holds other) (new : holds member) :
    ∀ other ∈ (queue.push member).toList, holds other := by
  intro other among
  rw [Queue.toList_push, List.mem_append, List.mem_singleton] at among
  rcases among with before | rfl
  · exact each other before
  · exact new

theorem Discreet.submit {loop : Loop σ} (discreet : loop.Discreet) (lane : Lane) {job : Unit → Script σ}
    (quiet : (job ()).Discreet (· < loop.groups.size)) : (loop.submit lane job).Discreet := by
  cases lane with
  | scheduled =>
    simp only [Loop.submit, schedule]
    split
    · exact { discreet with low := forall_mem_push discreet.low quiet }
    · exact { discreet with ready := forall_mem_push discreet.ready quiet }
  | deferred => exact { discreet with ready := forall_mem_push discreet.ready quiet }
  | yielded => exact { discreet with low := forall_mem_push discreet.low quiet }
  | after delay =>
    refine { discreet with timers := fun timer member => ?_ }
    rcases List.mem_cons.mp ((insertTimer_perm _ _).mem_iff.mp member) with rfl | before
    · exact quiet
    · exact discreet.timers timer before

end Loop

end Deferred
