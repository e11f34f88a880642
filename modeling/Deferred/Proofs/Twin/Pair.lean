import Deferred.Proofs.Twin.Uniform

/-! A pair of two futures of one type and the list of both. Their groups keep the same values until both values
are there or one of the futures has failed, although a pair takes the values out again with each arrival and puts
them back. -/

namespace Deferred.Parallel

variable {σ ε α : Type} [Storable α σ] {rules : List (Rule σ)} {each : Except ε α → Prop}
  {next : Except ε (α × α) → Script σ} {next' : Except ε (List α) → Script σ}

theorem twin_pair_all {group index : Nat}
    (known : rules[group]? = some
      (.gate (StoredPair (fun value => each (.ok value)) fun value => each (.ok value)) 2 0))
    (inside : index < 2)
    (succeeds : ∀ value other, each (.ok value) → each (.ok other) →
      Twin rules 0 (next (.ok (value, other))) (next' (.ok [value, other])))
    (fails : ∀ error, each (.error error) → Twin rules 0 (next (.error error)) (next' (.error error)))
    (outcome : Except ε α) (may : each outcome) :
    Twin rules {(group, index)} (pairArrival next group index outcome) (allArrival next' group index outcome) := by
  cases outcome with
  | ok value =>
    simp only [pairArrival, allArrival]
    have fit : StoredPair (fun value => each (.ok value)) (fun value => each (.ok value)) index
        (store value : σ) := by
      unfold StoredPair
      split <;> exact ⟨value, may, rfl⟩
    refine Twin.fills known inside fit (fills_settlePair ..) (fills_fillSlot ..) ?_
    intro content paid slots last
    obtain ⟨left, right, valid, valid', same, both⟩ := slots.exists_both last
    have values : content.values.filterMap load? = [left, right] := by simp [Group.values, same]
    rw [both, values]
    exact succeeds left right valid valid'
  | error error =>
    simp only [pairArrival, allArrival]
    exact Twin.handOnce known (fun _ => .done) (fun won => Script.Tells.record_if rfl won) (fails error may)

theorem twin_zip_all {first second : Future σ ε α} (uniform : first.Uniform each) (uniform' : second.Uniform each)
    (succeeds : ∀ later, rules <+: later → ∀ value other, each (.ok value) → each (.ok other) →
      Twin later 0 (next (.ok (value, other))) (next' (.ok [value, other])))
    (fails : ∀ later, rules <+: later → ∀ error, each (.error error) →
      Twin later 0 (next (.error error)) (next' (.error error))) :
    Twin rules 0 ((zip first second).run next) ((all [first, second]).run next') := by
  have members : ∀ future ∈ [first, second], future.Uniform each := by
    intro future member
    rcases List.mem_pair.mp member with rfl | rfl
    · exact uniform
    · exact uniform'
  rw [run_zip, all, together_of_ne_nil (List.cons_ne_nil _ _)]
  refine twin_members (StoredPair (fun value => each (.ok value)) fun value => each (.ok value)) members ?_
  intro later group extended known index inside outcome may
  exact twin_pair_all known inside (succeeds later extended) (fails later extended) outcome may

end Deferred.Parallel
