import Deferred.Future.Parallel
import Deferred.Proofs.Loop.Outward

/-! What each outcome that comes to a group makes of it, and what is done next. -/

namespace Deferred.Parallel

variable {σ ε α β γ : Type}

section Alters

variable {group index : Nat} {content : Group σ}

theorem alters_settled {handOn : Unit → Script σ} {after : Bool → Script σ} {last : Group σ}
    {rest : Script σ} (settled : content.settled = true)
    (alters : (after false).Alters group content last rest) :
    (handOnce group handOn after).Alters group content last rest := by
  refine .look ?_
  simp only [settled, if_true]
  exact alters

theorem alters_unsettled {handOn : Unit → Script σ} {after : Bool → Script σ}
    (unsettled : content.settled = false) :
    (handOnce group handOn after).Alters group content content.settle
      ((handOn ()).andThen (after true)) := by
  refine .look ?_
  simp only [unsettled, Bool.false_eq_true, if_false]
  exact .put (.refl _)

variable [Storable β σ] {value : β} {handOn : List β → Script σ}

theorem alters_fill (more : (content.fill index (store value)).remaining ≠ 0) :
    (fillSlot group index value handOn).Alters group content (content.fill index (store value)) .done := by
  refine .look (.put (.record rfl ?_))
  rw [if_neg more]
  exact .refl _

theorem alters_fill_last (last : (content.fill index (store value)).remaining = 0)
    (unsettled : content.settled = false) :
    (fillSlot group index value handOn).Alters group content
      (content.fill index (store value)).emptied.settle
      ((handOn ((content.fill index (store value)).values.filterMap load?)).andThen .done) := by
  refine .look (.put (.record rfl ?_))
  rw [if_pos last]
  exact .put (alters_unsettled unsettled)

theorem late_handOnce (group : Nat) {handOn : Unit → Script σ} {after : Bool → Script σ}
    (tells : (after false).Tells) : (handOnce group handOn after).Late group :=
  fun content settled => ⟨content, settled, alters_settled settled (tells group content)⟩

theorem late_fillSlot (group index : Nat) (value : β) (handOn : List β → Script σ) :
    (fillSlot group index value handOn).Late group := by
  intro content settled
  by_cases last : (content.fill index (store value)).remaining = 0
  · refine ⟨(content.fill index (store value)).emptied, settled, .look (.put (.record rfl ?_))⟩
    rw [if_pos last]
    exact .put (alters_settled settled (.refl _))
  · exact ⟨content.fill index (store value), settled, alters_fill last⟩

end Alters

section Pair

variable [Storable α σ] [Storable β σ] {group index : Nat} {content : Group σ} {stored : σ}
  {next : Except ε (α × β) → Script σ}

theorem alters_half (alone : (bothValues (content.fill index stored) : Option (α × β)) = none) :
    (Script.look group fun content => settlePair next group (content.fill index stored)).Alters group
      content (content.fill index stored) .done := by
  refine .look ?_
  simp only [settlePair, alone]
  exact .put (.refl _)

theorem alters_pair {both : α × β} (complete : bothValues (content.fill index stored) = some both)
    (unsettled : content.settled = false) :
    (Script.look group fun content => settlePair next group (content.fill index stored)).Alters group
      content (Group.settle { content.fill index stored with slots := [none, none] })
      ((next (.ok both)).andThen .done) := by
  refine .look ?_
  simp only [settlePair, complete]
  exact .put (alters_unsettled unsettled)

theorem late_settlePair (group index : Nat) (stored : σ) (next : Except ε (α × β) → Script σ) :
    (Script.look group fun content => settlePair next group (content.fill index stored)).Late group := by
  intro content settled
  cases both : (bothValues (content.fill index stored) : Option (α × β)) with
  | none => exact ⟨content.fill index stored, settled, alters_half both⟩
  | some values =>
    refine ⟨{ content.fill index stored with slots := [none, none] }, settled, .look ?_⟩
    simp only [settlePair, both]
    exact .put (alters_settled settled (.refl _))

def pairArrival [Storable γ σ] (next : Except ε (α × β) → Script σ)
    (group index : Nat) : Except ε γ → Script σ
  | .ok value => .look group fun content => settlePair next group (content.fill index (store value))
  | .error error => handOnce group (fun _ => next (.error error)) fun _ => .done

theorem leftArrival_eq (next : Except ε (α × β) → Script σ) (group : Nat) :
    leftArrival next group = pairArrival next group 0 := by
  funext outcome
  cases outcome <;> rfl

theorem rightArrival_eq (next : Except ε (α × β) → Script σ) (group : Nat) :
    rightArrival next group = pairArrival next group 1 := by
  funext outcome
  cases outcome <;> rfl

end Pair

theorem run_zip [Storable α σ] (first second : Future σ ε α) (next : Except ε (α × α) → Script σ) :
    (zip first second).run next =
      .gather (.ofSize 2) fun group => startAll (pairArrival next group) 0 [first, second] := by
  simp only [zip, startAll, leftArrival_eq, rightArrival_eq, Script.andThen_done]

end Deferred.Parallel
