import Deferred.Proofs.Debt.Slots
import Deferred.Proofs.Future.Started

/-! The outcomes of futures come to their common group in any order, and anything may happen on the loop
between two of them, or while one of them is handed on. What the group hands on depends on the order only
in which failure comes first, and its counter always tells how many of its slots are empty. -/

namespace Deferred

variable {σ τ ε ε' α β γ : Type}

def Script.Quiet (script : Script σ) : Prop :=
  ∀ (host : Host σ) (loop : Loop σ), ∃ journal, script.run host loop = some { loop with journal }

theorem Script.Quiet.done : (.done : Script σ).Quiet :=
  fun _ loop => ⟨loop.journal, rfl⟩

theorem Script.Quiet.record_if (event : Event) (won : Bool) :
    (if won then .record event .done else .done : Script σ).Quiet := by
  cases won with
  | false => exact .done
  | true => exact fun _ loop => ⟨(loop.record event).journal, rfl⟩

/-- A script that turns a group from `before` to `after`, hands an outcome on, if there is one to be
handed on, and does nothing else. -/
inductive Script.HandsOn (script : Script σ) (next : Except ε γ → Script σ) (group : Nat)
    (before after : Group σ) : Option (Except ε γ) → Prop where
  | nothing (rest : Script σ) (quiet : rest.Quiet) (changes : script.Changes group before after rest) :
      HandsOn script next group before after none
  | outcome (outcome : Except ε γ) (rest : Script σ) (quiet : rest.Quiet)
      (changes : script.Changes group before after ((next outcome).andThen rest)) :
      HandsOn script next group before after (some outcome)

namespace Group

def Counted (content : Group σ) : Prop :=
  content.remaining = content.slots.countP Option.isNone

/-- What the arrival of a member makes of a group. A value is put into the empty slot of its member, and
the last one empties the slots for good. -/
inductive Receives (index : Nat) (before : Group σ) : Option σ → Group σ → Prop where
  | fills {value : σ} (vacant : before.slots[index]? = some none) (expected : 0 < before.remaining)
      (more : (before.fill index value).remaining ≠ 0) :
      Receives index before (some value) (before.fill index value)
  | completes {value : σ} (vacant : before.slots[index]? = some none) (expected : 0 < before.remaining)
      (last : (before.fill index value).remaining = 0) (counted : (before.fill index value).Counted)
      (unsettled : before.settled = false) :
      Receives index before (some value) (before.fill index value).emptied.settle
  | ends (unsettled : before.settled = false) : Receives index before none before.settle
  | late (settled : before.settled = true) : Receives index before none before

def slotsAfter (stored : Nat → Option σ) (size : Nat) (early : List Nat) : List (Option σ) :=
  (List.range size).map fun index => if index ∈ early then stored index else none

def after (stored : Nat → Option σ) (size : Nat) (settled : Bool) (early : List Nat) : Group σ where
  slots := slotsAfter stored size early
  remaining := (slotsAfter stored size early).countP Option.isNone
  settled

section After

variable {stored : Nat → Option σ} {size index : Nat} {settled : Bool} {early : List Nat}

theorem counted_after : (after stored size settled early).Counted := rfl

theorem after_nil : after stored size false [] = .ofSize size := by
  simp [after, slotsAfter, ofSize, List.map_const', List.countP_replicate]

theorem after_slot (inside : index < size) : (after stored size settled early).slots[index]? =
    some (if index ∈ early then stored index else none) := by
  simp [after, slotsAfter, inside]

theorem after_remaining_pos (inside : index < size) (empty : index ∉ early ∨ stored index = none) :
    0 < (after stored size settled early).remaining := by
  rw [counted_after, List.countP_pos_iff]
  refine ⟨none, List.mem_of_getElem? (i := index) ?_, rfl⟩
  rw [after_slot inside]
  rcases empty with absent | none
  · rw [if_neg absent]
  · rw [none, ite_self]

theorem after_concat_of_none (empty : stored index = none) :
    after stored size settled (early ++ [index]) = after stored size settled early := by
  have same : ∀ other, (if other ∈ early ++ [index] then stored other else none) =
      if other ∈ early then stored other else none := by
    intro other
    rcases eq_or_ne other index with rfl | different
    · rw [empty, ite_self, ite_self]
    · simp [different]
  simp only [after, slotsAfter, same]

theorem after_concat_of_some {value : σ} (inside : index < size) (absent : index ∉ early)
    (some : stored index = some value) :
    after stored size settled (early ++ [index]) =
      (after stored size settled early).fill index value := by
  have slots : (after stored size settled (early ++ [index])).slots =
      ((after stored size settled early).fill index value).slots := by
    apply List.ext_getElem?
    intro other
    rw [fill, List.getElem?_set]
    by_cases within : other < size
    · rw [after_slot within]
      rcases eq_or_ne other index with rfl | different
      · simp [some, after, slotsAfter, within]
      · simp [different, different.symm, after_slot within]
    · have different : index ≠ other := fun same => within (same ▸ inside)
      simp [after, slotsAfter, Nat.le_of_not_lt within, different]
  have remaining : (after stored size settled (early ++ [index])).remaining =
      ((after stored size settled early).fill index value).remaining := by
    have found : (after stored size settled early).slots[index]? = Option.some none := by
      rw [after_slot inside, if_neg absent]
    obtain ⟨place, empty⟩ := List.getElem?_eq_some_iff.mp found
    rw [counted_after, slots]
    simp only [fill]
    rw [List.countP_set place, empty, counted_after]
    rfl
  exact (Group.mk.injEq ..).mpr ⟨slots, remaining, rfl⟩

end After

end Group

namespace Parallel

/-- The outcomes come in this order: the group is at first as `initial`, receives them one after another, and
hands on `handed count` when the one comes before which `count` others have come. -/
structure Course (arrival : (Except ε' γ → Script σ) → Nat → Nat → Except ε α → Script σ)
    (kept : Except ε α → Option σ) (initial : Group σ) (outcomes : List (Except ε α)) (order : List Nat)
    (handed : Nat → Option (Except ε' γ)) (contents : Nat → Group σ) : Prop where
  starts : contents 0 = initial
  counted : ∀ count, (contents count).Counted
  receives : ∀ count index outcome, order[count]? = some index → outcomes[index]? = some outcome →
    (contents count).Receives index (kept outcome) (contents (count + 1))
  handsOn : ∀ count index outcome, order[count]? = some index → outcomes[index]? = some outcome →
    ∀ next group, (arrival next group index outcome).HandsOn next group (contents count)
      (contents (count + 1)) (handed count)

section Order

variable {order : List Nat} {size count index : Nat}

theorem lt_of_arrival (every : order.Perm (List.range size)) (came : order[count]? = some index) :
    index < size :=
  List.mem_range.mp (every.mem_iff.mp (List.mem_of_getElem? came))

theorem count_lt_of_arrival (every : order.Perm (List.range size))
    (came : order[count]? = some index) : count < size := by
  have inside := (List.getElem?_eq_some_iff.mp came).1
  rwa [every.length_eq, List.length_range] at inside

theorem take_arrival (came : order[count]? = some index) :
    order.take (count + 1) = order.take count ++ [index] := by
  rw [List.take_add_one, came, Option.toList_some]

theorem notMem_take_of_arrival (every : order.Perm (List.range size))
    (came : order[count]? = some index) : index ∉ order.take count := by
  have nodup : (order.take (count + 1)).Nodup :=
    (every.nodup_iff.mpr List.nodup_range).sublist (List.take_sublist ..)
  rw [take_arrival came] at nodup
  exact fun early => (List.nodup_append.mp nodup).2.2 index early index (List.mem_singleton_self _) rfl

theorem exists_notMem_take (every : order.Perm (List.range size)) (missing : count < size) :
    ∃ index < size, index ∉ order.take count := by
  have inside : count < order.length := by rwa [every.length_eq, List.length_range]
  have found : order[count]? = some order[count] := List.getElem?_eq_getElem inside
  exact ⟨order[count], lt_of_arrival every found, notMem_take_of_arrival every found⟩

end Order

section Arrival

variable [Storable β σ] {sort : Except ε α → β ⊕ Except ε' γ} {finish : List β → Except ε' γ}
  {after : Nat → Bool → Script σ} {next : Except ε' γ → Script σ} {group index : Nat}
  {outcome : Except ε α} {content : Group σ}

theorem handsOn_fill {value : β} (sorted : sort outcome = .inl value)
    (more : (content.fill index (store value)).remaining ≠ 0) :
    (arrivalBy sort finish after next group index outcome).HandsOn next group content
      (content.fill index (store value)) none := by
  unfold arrivalBy
  rw [sorted]
  exact .nothing .done .done (changes_fill more)

theorem handsOn_last {value : β} (sorted : sort outcome = .inl value)
    (last : (content.fill index (store value)).remaining = 0) (unsettled : content.settled = false) :
    (arrivalBy sort finish after next group index outcome).HandsOn next group content
      (content.fill index (store value)).emptied.settle
      (some (finish ((content.fill index (store value)).values.filterMap load?))) := by
  unfold arrivalBy
  rw [sorted]
  exact .outcome _ .done .done (changes_fill_last last unsettled)

theorem handsOn_end {result : Except ε' γ} (sorted : sort outcome = .inr result)
    (quiet : (after index true).Quiet) (unsettled : content.settled = false) :
    (arrivalBy sort finish after next group index outcome).HandsOn next group content content.settle
      (some result) := by
  unfold arrivalBy
  rw [sorted]
  exact .outcome _ _ quiet (changes_unsettled unsettled)

theorem handsOn_late {result : Except ε' γ} (sorted : sort outcome = .inr result)
    (quiet : (after index false).Quiet) (settled : content.settled = true) :
    (arrivalBy sort finish after next group index outcome).HandsOn next group content content
      none := by
  unfold arrivalBy
  rw [sorted]
  exact .nothing _ quiet (changes_settled settled)

end Arrival

def keptAt (kept : Except ε α → Option σ) (outcomes : List (Except ε α)) (index : Nat) : Option σ :=
  outcomes[index]?.bind kept

def contentAfter (kept : Except ε α → Option σ) (outcomes : List (Except ε α)) (settled : Bool)
    (early : List Nat) : Group σ :=
  .after (keptAt kept outcomes) outcomes.length settled early

section Course

variable [Storable β σ] {sort : Except ε α → β ⊕ Except ε' γ} {finish : List β → Except ε' γ}
  {after : Nat → Bool → Script σ} {kept : Except ε α → Option σ} {outcomes : List (Except ε α)}
  {order : List Nat} {count index : Nat} {outcome : Except ε α}
  {settled : Bool} {value : β}

theorem keptAt_eq (found : outcomes[index]? = some outcome) :
    keptAt kept outcomes index = kept outcome := by
  rw [keptAt, found, Option.bind_some]

theorem contentAfter_fill (every : order.Perm (List.range outcomes.length))
    (came : order[count]? = some index) (found : outcomes[index]? = some outcome)
    (keeps : kept outcome = some (store value)) :
    (contentAfter kept outcomes settled (order.take count)).fill index (store value) =
      contentAfter kept outcomes settled (order.take (count + 1)) := by
  rw [take_arrival came]
  exact (Group.after_concat_of_some (lt_of_arrival every came) (notMem_take_of_arrival every came)
    ((keptAt_eq found).trans keeps)).symm

theorem contentAfter_vacant (every : order.Perm (List.range outcomes.length))
    (came : order[count]? = some index) :
    (contentAfter kept outcomes settled (order.take count)).slots[index]? = some none := by
  rw [contentAfter, Group.after_slot (lt_of_arrival every came),
    if_neg (notMem_take_of_arrival every came)]

theorem contentAfter_expected (every : order.Perm (List.range outcomes.length))
    (came : order[count]? = some index) :
    0 < (contentAfter kept outcomes settled (order.take count)).remaining :=
  Group.after_remaining_pos (lt_of_arrival every came) (.inl (notMem_take_of_arrival every came))

/-- A value that is not the last one waits in its slot, whether the group is settled or not. -/
theorem arrives_early (every : order.Perm (List.range outcomes.length))
    (came : order[count]? = some index) (found : outcomes[index]? = some outcome)
    (sorted : sort outcome = .inl value) (keeps : kept outcome = some (store value))
    (more : (contentAfter kept outcomes settled (order.take (count + 1))).remaining ≠ 0) :
    (contentAfter kept outcomes settled (order.take count)).Receives index (kept outcome)
        (contentAfter kept outcomes settled (order.take (count + 1))) ∧
      ∀ next group, (arrivalBy sort finish after next group index outcome).HandsOn next group
        (contentAfter kept outcomes settled (order.take count))
        (contentAfter kept outcomes settled (order.take (count + 1))) none := by
  rw [← contentAfter_fill every came found keeps] at more ⊢
  rw [keeps]
  exact ⟨.fills (contentAfter_vacant every came) (contentAfter_expected every came) more,
    fun _ _ => handsOn_fill sorted more⟩

theorem arrives_last (every : order.Perm (List.range outcomes.length))
    (came : order[count]? = some index) (found : outcomes[index]? = some outcome)
    (sorted : sort outcome = .inl value) (keeps : kept outcome = some (store value))
    (last : order.take (count + 1) = order) (full : (contentAfter kept outcomes false order).remaining = 0) :
    (contentAfter kept outcomes false (order.take count)).Receives index (kept outcome)
        (contentAfter kept outcomes false order).emptied.settle ∧
      ∀ next group, (arrivalBy sort finish after next group index outcome).HandsOn next group
        (contentAfter kept outcomes false (order.take count))
        (contentAfter kept outcomes false order).emptied.settle
        (some (finish ((contentAfter kept outcomes false order).values.filterMap load?))) := by
  have counted : (contentAfter kept outcomes false order).Counted := Group.counted_after
  have fills : (contentAfter kept outcomes false (order.take count)).fill index (store value) =
      contentAfter kept outcomes false order := by
    rw [contentAfter_fill every came found keeps, last]
  rw [← fills] at full counted ⊢
  rw [keeps]
  exact ⟨.completes (contentAfter_vacant every came) (contentAfter_expected every came) full counted rfl,
    fun _ _ => handsOn_last sorted full rfl⟩

section Values

variable {values : List β}

theorem value_of_sorted (sorted : outcomes.map sort = values.map .inl)
    (found : outcomes[index]? = some outcome) :
    ∃ value, values[index]? = some value ∧ sort outcome = .inl value := by
  have same : (outcomes.map sort)[index]? = (values.map Sum.inl)[index]? := by rw [sorted]
  rw [List.getElem?_map, List.getElem?_map, found, Option.map_some] at same
  obtain ⟨value, found', eq⟩ := Option.map_eq_some_iff.mp same.symm
  exact ⟨value, found', eq.symm⟩

theorem contentAfter_slots (keeps : ∀ outcome value, sort outcome = .inl value →
      kept outcome = some (store value)) (every : order.Perm (List.range outcomes.length))
    (sorted : outcomes.map sort = values.map .inl) :
    (contentAfter kept outcomes settled order).slots = values.map fun value => some (store value) := by
  have length : outcomes.length = values.length := by
    simpa using congrArg List.length sorted
  apply List.ext_getElem?
  intro index
  by_cases inside : index < outcomes.length
  · have found : outcomes[index]? = some outcomes[index] := List.getElem?_eq_getElem inside
    obtain ⟨value, found', eq⟩ := value_of_sorted sorted found
    rw [contentAfter, Group.after_slot inside, if_pos (every.mem_iff.mpr (List.mem_range.mpr inside)),
      keptAt_eq found, keeps _ value eq, List.getElem?_map, found', Option.map_some]
  · have outside : values.length ≤ index := by omega
    simp [contentAfter, Group.after, Group.slotsAfter, Nat.le_of_not_lt inside, outside]

/-- If every outcome fills its slot, the last one hands on the values in the order of the slots. -/
theorem exists_course_of_values (keeps : ∀ outcome value, sort outcome = .inl value →
      kept outcome = some (store value)) (nonempty : outcomes ≠ [])
    (every : order.Perm (List.range outcomes.length))
    (sorted : outcomes.map sort = values.map .inl) :
    ∃ contents, Course (arrivalBy sort finish after) kept (.ofSize outcomes.length) outcomes order
      (fun count => if count + 1 = outcomes.length then some (finish values) else none) contents := by
  let whole := contentAfter kept outcomes false order
  have slots : whole.slots = values.map fun value => some (store value) :=
    contentAfter_slots keeps every sorted
  have full : whole.remaining = 0 := by
    change whole.slots.countP Option.isNone = 0
    rw [slots, List.countP_eq_zero]
    simp
  have handed : whole.values.filterMap load? = values := by
    simp [Group.values, slots, List.filterMap_map]
  let contents count := if count < outcomes.length then
    contentAfter kept outcomes false (order.take count) else whole.emptied.settle
  have step : ∀ count index outcome, order[count]? = some index → outcomes[index]? = some outcome →
      (contents count).Receives index (kept outcome) (contents (count + 1)) ∧
        ∀ next group, (arrivalBy sort finish after next group index outcome).HandsOn next group
          (contents count) (contents (count + 1))
          (if count + 1 = outcomes.length then some (finish values) else none) := by
    intro count index outcome came found
    obtain ⟨value, -, eq⟩ := value_of_sorted sorted found
    have inside : count < outcomes.length := count_lt_of_arrival every came
    have before : contents count = contentAfter kept outcomes false (order.take count) := if_pos inside
    rw [before]
    by_cases last : count + 1 = outcomes.length
    · have all : order.take (count + 1) = order :=
        List.take_of_length_le (by rw [every.length_eq, List.length_range, last])
      have after' : contents (count + 1) = whole.emptied.settle := if_neg (by omega)
      rw [after', if_pos last, ← handed]
      exact arrives_last every came found eq (keeps _ _ eq) all full
    · have more : count + 1 < outcomes.length := by omega
      obtain ⟨missing, within, absent⟩ := exists_notMem_take every more
      have after' : contents (count + 1) = contentAfter kept outcomes false (order.take (count + 1)) :=
        if_pos more
      rw [after', if_neg last]
      exact arrives_early every came found eq (keeps _ _ eq)
        (Nat.ne_of_gt (Group.after_remaining_pos within (.inl absent)))
  refine ⟨contents, ?_, ?_, fun count index outcome came found => (step _ _ _ came found).1,
    fun count index outcome came found => (step _ _ _ came found).2⟩
  · have starts : contents 0 = contentAfter kept outcomes false (order.take 0) :=
      if_pos (List.length_pos_iff.mpr nonempty)
    rw [starts]
    exact Group.after_nil
  · intro count
    by_cases inside : count < outcomes.length
    · have before : contents count = contentAfter kept outcomes false (order.take count) := if_pos inside
      rw [before]
      exact Group.counted_after
    · have complete : contents count = whole.emptied.settle := if_neg inside
      rw [complete]
      exact full

end Values

theorem exists_course_of_end (keeps : ∀ outcome value, sort outcome = .inl value →
      kept outcome = some (store value)) (drops : ∀ outcome result, sort outcome = .inr result →
      kept outcome = none) (quiet : ∀ index won, (after index won).Quiet)
    (every : order.Perm (List.range outcomes.length)) {first : Nat} {result : Except ε' γ}
    (came : order[first]? = some index) (found : outcomes[index]? = some outcome)
    (ends : sort outcome = .inr result)
    (earliest : ∀ earlier < first, ∀ index outcome result, order[earlier]? = some index →
      outcomes[index]? = some outcome → sort outcome ≠ .inr result) :
    ∃ contents, Course (arrivalBy sort finish after) kept (.ofSize outcomes.length) outcomes order
      (fun count => if count = first then some result else none) contents := by
  -- The slot of the first failure stays empty, so the counter never comes to zero.
  have more : ∀ settled early, (contentAfter kept outcomes settled early).remaining ≠ 0 := by
    intro settled early
    have empty : keptAt kept outcomes index = none := (keptAt_eq found).trans (drops _ _ ends)
    exact Nat.ne_of_gt (Group.after_remaining_pos (lt_of_arrival every came) (.inr empty))
  let contents count := contentAfter kept outcomes (decide (first < count)) (order.take count)
  have step : ∀ count index outcome, order[count]? = some index → outcomes[index]? = some outcome →
      (contents count).Receives index (kept outcome) (contents (count + 1)) ∧
        ∀ next group, (arrivalBy sort finish after next group index outcome).HandsOn next group
          (contents count) (contents (count + 1)) (if count = first then some result else none) := by
    intro count index' outcome' came' found'
    cases eq : sort outcome' with
    | inl value =>
      have other : count ≠ first := by
        rintro rfl
        obtain rfl : index' = index := Option.some.inj (came'.symm.trans came)
        obtain rfl : outcome' = outcome := Option.some.inj (found'.symm.trans found)
        rw [eq] at ends
        exact absurd ends (by simp)
      have still : decide (first < count + 1) = decide (first < count) :=
        decide_eq_decide.mpr (by omega)
      simp only [contents, still, if_neg other]
      exact arrives_early every came' found' eq (keeps _ _ eq) (more _ _)
    | inr other =>
      have notEarlier : ¬count < first := fun earlier => earliest count earlier _ _ _ came' found' eq
      have empty : keptAt kept outcomes index' = none := (keptAt_eq found').trans (drops _ _ eq)
      have settles : contents (count + 1) = contentAfter kept outcomes true (order.take count) := by
        have past : first < count + 1 := by omega
        simp only [contents, contentAfter, take_arrival came', past, decide_true]
        exact Group.after_concat_of_none empty
      rw [drops _ _ eq, settles]
      by_cases same : count = first
      · subst same
        obtain rfl : index' = index := Option.some.inj (came'.symm.trans came)
        obtain rfl : outcome' = outcome := Option.some.inj (found'.symm.trans found)
        obtain rfl : other = result := Sum.inr.inj (eq.symm.trans ends)
        have unsettled : (contents count).settled = false := decide_eq_false (lt_irrefl count)
        have settle : contentAfter kept outcomes true (order.take count) = (contents count).settle := rfl
        rw [if_pos rfl, settle]
        exact ⟨.ends unsettled, fun _ _ => handsOn_end eq (quiet _ _) unsettled⟩
      · have past : first < count := by omega
        have settled : contents count = contentAfter kept outcomes true (order.take count) := by
          simp only [contents, past, decide_true]
        rw [if_neg same, settled]
        exact ⟨.late rfl, fun _ _ => handsOn_late eq (quiet _ _) rfl⟩
  refine ⟨contents, ?_, fun _ => Group.counted_after,
    fun count index outcome came found => (step _ _ _ came found).1,
    fun count index outcome came found => (step _ _ _ came found).2⟩
  exact Group.after_nil

end Course

/-- If outsiders have the continuations of the futures, starting the futures makes a group and gives each of the
outsiders an arrival, and does nothing else. The arrival that is invoked when `count` others have been turns the
group from `contents count` into what comes after it, and hands on `handed count`. -/
def Attends (combined : List (Future σ ε α) → Future σ ε' γ) (outcomes : List (Except ε α)) (order : List Nat)
    (handed : Nat → Option (Except ε' γ)) (contents : Nat → Group σ) : Prop :=
  ∀ (wakers : List Nat) (next : Except ε' γ → Script σ) (host : Host σ) (loop : Loop σ), wakers.Nodup →
    wakers.length = outcomes.length → (∀ waker ∈ wakers, waker < loop.wakers.size) →
      ∃ started : Loop σ,
        ((combined (List.zipWith Future.leftTo wakers outcomes)).run next).run host loop = some started ∧
        { started with wakers := loop.wakers } = loop.gather (contents 0) ∧
        ∀ count index waker, order[count]? = some index → wakers[index]? = some waker →
          ∃ rest : Unit → Script σ, started.rest? waker = some rest ∧
            (rest ()).HandsOn next loop.groups.size (contents count) (contents (count + 1)) (handed count)

/-- A combinator makes one group for its futures and runs them one after another, each with the arrival of its own
place as its continuation. As these outcomes come to the group in this order, `handed` tells what it hands on and
when. -/
structure HandsOnAs (combined : List (Future σ ε α) → Future σ ε' γ)
    (arrival : (Except ε' γ → Script σ) → Nat → Nat → Except ε α → Script σ)
    (kept : Except ε α → Option σ) (initial : Group σ) (outcomes : List (Except ε α)) (order : List Nat)
    (handed : Nat → Option (Except ε' γ)) : Prop where
  starts : ∀ (futures : List (Future σ ε α)) (next : Except ε' γ → Script σ) (host : Host σ) (loop : Loop σ),
    futures.length = outcomes.length → ((combined futures).run next).run host loop =
      runEach host (arrival next loop.groups.size) 0 futures (loop.gather initial)
  arrives : ∃ contents, Course arrival kept initial outcomes order handed contents ∧
    Attends combined outcomes order handed contents

theorem handsOnAs_of_course {combined : List (Future σ ε α) → Future σ ε' γ}
    {arrival : (Except ε' γ → Script σ) → Nat → Nat → Except ε α → Script σ}
    {kept : Except ε α → Option σ} {initial : Group σ} {outcomes : List (Except ε α)} {order : List Nat}
    {handed : Nat → Option (Except ε' γ)}
    (form : ∀ futures, futures.length = outcomes.length → combined futures = sideBySide initial arrival futures)
    (course : ∃ contents, Course arrival kept initial outcomes order handed contents) :
    HandsOnAs combined arrival kept initial outcomes order handed := by
  obtain ⟨contents, course⟩ := course
  have starts : ∀ (futures : List (Future σ ε α)) (next : Except ε' γ → Script σ) (host : Host σ) (loop : Loop σ),
      futures.length = outcomes.length → ((combined futures).run next).run host loop =
        runEach host (arrival next loop.groups.size) 0 futures (loop.gather initial) := by
    intro futures next host loop length
    rw [form futures length]
    exact run_sideBySide futures next loop
  refine ⟨starts, contents, course, fun wakers next host loop different length inside => ?_⟩
  obtain ⟨started, ran, same, -, arrivals⟩ :=
    runEach_leftTo host (arrival next loop.groups.size) 0 (loop.gather initial) different length inside
  refine ⟨started, ?_, ?_, fun count index waker came found => ?_⟩
  · rw [starts _ next host loop (by rw [List.length_zipWith, length, min_self])]
    exact ran
  · rw [course.starts]
    exact same
  · have within : index < outcomes.length := length ▸ (List.getElem?_eq_some_iff.mp found).1
    have found' : outcomes[index]? = some outcomes[index] := List.getElem?_eq_getElem within
    refine ⟨_, arrivals index waker _ found found', ?_⟩
    rw [Nat.zero_add]
    exact course.handsOn count index _ came found' next _

theorem together_of_length {arrive : (Except ε' γ → Script σ) → Nat → Nat → Except ε α → Script σ}
    {empty : Except ε' γ} {outcomes : List (Except ε α)} (nonempty : outcomes ≠ [])
    (futures : List (Future σ ε α)) (length : futures.length = outcomes.length) :
    together empty arrive futures = sideBySide (.ofSize outcomes.length) arrive futures := by
  rw [← length]
  refine together_of_ne_nil ?_
  rintro rfl
  exact nonempty (List.eq_nil_of_length_eq_zero length.symm)

def keptValue [Storable α σ] : Except ε α → Option σ
  | .ok value => some (store value)
  | .error _ => none

def jointArrival [Storable α σ] (event : Nat → Event) :
    (Except ε (List α) → Script σ) → Nat → Nat → Except ε α → Script σ :=
  arrivalBy valueOrEnd .ok fun index won => if won then .record (event index) .done else .done

section Joint

variable [Storable α σ] {outcomes : List (Except ε α)} {order : List Nat}

theorem keptValue_of_inl {outcome : Except ε α} {value : α} (sorted : valueOrEnd outcome = .inl value) :
    keptValue (σ := σ) outcome = some (store value) := by
  rw [valueOrEnd_eq_inl.mp sorted]
  rfl

theorem joint_course_of_values (event : Nat → Event) (nonempty : outcomes ≠ [])
    (every : order.Perm (List.range outcomes.length)) {values : List α}
    (succeeded : outcomes = values.map .ok) :
    ∃ contents : Nat → Group σ, Course (jointArrival event) keptValue (.ofSize outcomes.length) outcomes order
      (fun count => if count + 1 = outcomes.length then some (.ok values) else none) contents := by
  apply exists_course_of_values (fun _ _ => keptValue_of_inl) nonempty every
  rw [succeeded, List.map_map]
  rfl

theorem joint_course_of_failure (event : Nat → Event) (every : order.Perm (List.range outcomes.length))
    {first index : Nat} {error : ε} (came : order[first]? = some index)
    (failed : outcomes[index]? = some (.error error))
    (earliest : ∀ earlier < first, ∀ index error, order[earlier]? = some index →
      outcomes[index]? ≠ some (.error error)) :
    ∃ contents : Nat → Group σ, Course (jointArrival event) keptValue (.ofSize outcomes.length) outcomes order
      (fun count => if count = first then some (.error error) else none) contents := by
  refine exists_course_of_end (fun _ _ => keptValue_of_inl) ?_ (fun _ won => .record_if _ won) every came
    failed rfl ?_
  · intro outcome result sorted
    obtain ⟨error, rfl, -⟩ := valueOrEnd_eq_inr.mp sorted
    rfl
  · intro earlier before index outcome result came' found sorted
    obtain ⟨error, rfl, -⟩ := valueOrEnd_eq_inr.mp sorted
    exact earliest earlier before index error came' found

end Joint

/-- Whatever the order in which the outcomes come, a future that waits for all of them hands them on in
the order of the futures when the last one comes. One that needs all values does the same with them if
there is no failure, and else hands on the first failure as it comes. Neither hands on anything else, and
every value is put into an empty slot of its own. -/
theorem handed_on_in_any_order [Storable (Except ε α) σ] [Storable α τ] {outcomes : List (Except ε α)}
    (nonempty : outcomes ≠ []) {order : List Nat} (every : order.Perm (List.range outcomes.length)) :
    HandsOnAs (σ := σ) allSettled settledArrival (fun outcome => some (store outcome))
      (.ofSize outcomes.length) outcomes order
      (fun count => if count + 1 = outcomes.length then some (.ok outcomes) else none) ∧
    (∀ values, outcomes = values.map .ok →
      HandsOnAs (σ := τ) all allArrival keptValue (.ofSize outcomes.length) outcomes order
        fun count => if count + 1 = outcomes.length then some (.ok values) else none) ∧
    ∀ first index error, order[first]? = some index → outcomes[index]? = some (.error error) →
      (∀ earlier < first, ∀ index error, order[earlier]? = some index →
        outcomes[index]? ≠ some (.error error)) →
      HandsOnAs (σ := τ) all allArrival keptValue (.ofSize outcomes.length) outcomes order
        fun count => if count = first then some (.error error) else none := by
  refine ⟨handsOnAs_of_course (together_of_length nonempty) ?_, fun values succeeded =>
    handsOnAs_of_course (together_of_length nonempty) ?_, fun first index error came found earliest =>
    handsOnAs_of_course (together_of_length nonempty) ?_⟩
  · have arrival : (settledArrival : (Except ε (List (Except ε α)) → Script σ) → _) =
        arrivalBy .inl .ok fun _ _ => .done := rfl
    rw [arrival]
    exact exists_course_of_values (fun outcome value same => by rw [Sum.inl.inj same]) nonempty every rfl
  · rw [allArrival_eq]
    exact joint_course_of_values .allFailed nonempty every succeeded
  · rw [allArrival_eq]
    exact joint_course_of_failure .allFailed every came found earliest

/-- Three futures come from the last to the first; the one in the middle fails. -/
theorem handed_on_in_any_order_backwards :
    ([.ok 1, .error "late", .ok 3] : List (Except String Nat)) ≠ [] ∧
      [2, 1, 0].Perm (List.range 3) ∧
      HandsOnAs (σ := Except String Nat) allSettled settledArrival (fun outcome => some (store outcome))
        (.ofSize 3) [.ok 1, .error "late", .ok 3] [2, 1, 0]
        (fun count => if count + 1 = 3 then some (.ok [.ok 1, .error "late", .ok 3]) else none) ∧
      HandsOnAs (σ := Nat) all allArrival keptValue (.ofSize 3) [.ok 1, .error "late", .ok 3] [2, 1, 0]
        fun count => if count = 1 then some (.error "late") else none := by
  have every : [2, 1, 0].Perm (List.range 3) := by decide
  have nonempty : ([.ok 1, .error "late", .ok 3] : List (Except String Nat)) ≠ [] := by simp
  obtain ⟨settled, -, failed⟩ := handed_on_in_any_order (σ := Except String Nat) (τ := Nat) nonempty every
  refine ⟨nonempty, every, settled, failed 1 1 "late" rfl rfl fun earlier before => ?_⟩
  obtain rfl : earlier = 0 := by omega
  intro index error came found
  obtain rfl : 2 = index := Option.some.inj came
  exact absurd found (by simp)

end Parallel

end Deferred
