import Deferred.Proofs.Twin.Run
import Deferred.Proofs.Debt.Zip
import Deferred.Proofs.Future.AnyOrder

/-! Groups to which each member comes once. Two runs keep the same in such a group until both settle it. For a
value that is put into its slot a member pays with its token, so no slot is taken twice, and the counter tells
when all values are there. Whoever settles the group first gets what it holds for its continuation. -/

namespace Deferred

variable {σ ε α β γ : Type}

def StoredAs [Storable β σ] (each : β → Prop) (_ : Nat) (stored : σ) : Prop :=
  ∃ value : β, each value ∧ stored = store value

def StoredPair [Storable α σ] [Storable β σ] (first : α → Prop) (second : β → Prop) (index : Nat)
    (stored : σ) : Prop :=
  if index = 0 then StoredAs first index stored else StoredAs second index stored

/-- The slots of a group, of which those are taken that have been paid for. -/
structure Group.Paid (fits : Nat → σ → Prop) (number size : Nat) (paid : Multiset Token) (content : Group σ) :
    Prop where
  counted : content.Counted
  length : content.slots.length = size
  taken : ∀ index stored, content.slots[index]? = some (some stored) →
    (number, index) ∈ paid ∧ fits index stored

/-- Both runs keep the same in the group until both have settled it. Till then the group holds a deposit, and
what has been paid for its slots. -/
def Rule.gate (fits : Nat → σ → Prop) (size : Nat) (deposit : Multiset Token) : Rule σ :=
  fun number kept content content' => content.settled = true ∧ content'.settled = true ∨
    content = content' ∧ content.settled = false ∧
      ∃ paid, kept = deposit + paid ∧ content.Paid fits number size paid

namespace Group

theorem paid_ofSize (fits : Nat → σ → Prop) (number size : Nat) : (Group.ofSize size).Paid fits number size 0 where
  counted := by simp [Counted, Group.ofSize, List.countP_replicate]
  length := List.length_replicate
  taken index stored found := by
    obtain ⟨_, same⟩ := List.getElem?_eq_some_iff.mp found
    simp [Group.ofSize] at same

namespace Paid

variable {fits : Nat → σ → Prop} {number size index : Nat} {paid : Multiset Token} {content : Group σ}

theorem vacant (slots : content.Paid fits number size paid) (inside : index < size)
    (missing : (number, index) ∉ paid) : content.slots[index]? = some none := by
  obtain ⟨slot, found⟩ : ∃ slot, content.slots[index]? = some slot :=
    ⟨_, List.getElem?_eq_getElem (slots.length ▸ inside)⟩
  cases slot with
  | none => exact found
  | some stored => exact absurd (slots.taken index stored found).1 missing

theorem fill (slots : content.Paid fits number size paid) (inside : index < size)
    (missing : (number, index) ∉ paid) {stored : σ} (fit : fits index stored) :
    (content.fill index stored).Paid fits number size ({(number, index)} + paid) where
  counted := by
    obtain ⟨place, empty⟩ := List.getElem?_eq_some_iff.mp (slots.vacant inside missing)
    change content.remaining - 1 = (content.slots.set index (some stored)).countP Option.isNone
    rw [List.countP_set place, empty, slots.counted]
    rfl
  length := by
    rw [Group.fill, List.length_set]
    exact slots.length
  taken other kept found := by
    rw [Group.fill, List.getElem?_set] at found
    split at found
    next same =>
      subst same
      split at found
      next =>
        obtain rfl := Option.some.inj (Option.some.inj found)
        exact ⟨Multiset.mem_add.mpr (.inl (Multiset.mem_singleton_self _)), fit⟩
      next => cases found
    next =>
      obtain ⟨came, fit⟩ := slots.taken other kept found
      exact ⟨Multiset.mem_add.mpr (.inr came), fit⟩

theorem full (slots : content.Paid fits number size paid) (last : content.remaining = 0) (inside : index < size) :
    ∃ stored, content.slots[index]? = some (some stored) ∧ fits index stored := by
  have found := List.getElem?_eq_getElem (slots.length ▸ inside)
  have none := List.countP_eq_zero.mp (slots.counted.symm.trans last)
  obtain ⟨stored, same⟩ := Option.ne_none_iff_exists'.mp fun empty =>
    none _ (List.mem_of_getElem? found) (Option.isNone_iff_eq_none.mpr empty)
  rw [same] at found
  exact ⟨stored, found, (slots.taken index stored found).2⟩

theorem exists_values [Storable β σ] {each : β → Prop} (slots : content.Paid (StoredAs each) number size paid)
    (last : content.remaining = 0) : ∃ values : List β, content.values.filterMap load? = values ∧
      values.length = size ∧ ∀ value ∈ values, each value := by
  have full : ∀ index < content.slots.length, ∃ value : β, each value ∧
      content.slots[index]? = some (some (store value)) := by
    intro index inside
    obtain ⟨_, found, value, valid, rfl⟩ := slots.full last (slots.length ▸ inside)
    exact ⟨value, valid, found⟩
  obtain ⟨values, same, fits⟩ := Filling.exists_stored content.slots full
  refine ⟨values, ?_, ?_, fun value member => ?_⟩
  · simp [Group.values, same, List.filterMap_map]
  · rw [← slots.length, same, List.length_map]
  · obtain ⟨index, found⟩ := List.mem_iff_getElem?.mp member
    have inside := (List.getElem?_eq_some_iff.mp found).1
    obtain ⟨value', found', valid⟩ := fits index (by rwa [same, List.length_map])
    exact Option.some.inj (found'.symm.trans found) ▸ valid

section Pair

variable [Storable α σ] [Storable β σ] {first : α → Prop} {second : β → Prop}

theorem bothValues_eq_none (slots : content.Paid fits number 2 paid) (more : content.remaining ≠ 0) :
    (Parallel.bothValues content : Option (α × β)) = none := by
  rw [slots.counted] at more
  obtain ⟨slot, member, empty⟩ := List.countP_pos_iff.mp (Nat.pos_of_ne_zero more)
  obtain rfl := Option.isNone_iff_eq_none.mp empty
  obtain ⟨index, found⟩ := List.mem_iff_getElem?.mp member
  exact Parallel.bothValues_of_empty slots.length found

theorem exists_both (slots : content.Paid (StoredPair first second) number 2 paid) (last : content.remaining = 0) :
    ∃ value other, first value ∧ second other ∧ content.slots = [some (store value), some (store other)] ∧
      Parallel.bothValues content = some (value, other) := by
  obtain ⟨_, found, value, valid, rfl⟩ := slots.full last Nat.zero_lt_two
  obtain ⟨_, found', other, valid', rfl⟩ := slots.full last Nat.one_lt_two
  refine ⟨value, other, valid, valid', ?_, Parallel.bothValues_of_stored slots.length found found'⟩
  obtain ⟨one, two, same⟩ := List.length_eq_two.mp slots.length
  rw [same] at found found' ⊢
  rw [Option.some.inj found, Option.some.inj found']

end Pair

end Paid

end Group

structure Script.Fills (fits : Nat → σ → Prop) (size number index : Nat) (stored : σ) (rest : Group σ → Script σ)
    (script : Script σ) : Prop where
  late : script.Late number
  waits : ∀ (content : Group σ) (paid : Multiset Token),
    (content.fill index stored).Paid fits number size paid → (content.fill index stored).remaining ≠ 0 →
      script.Alters number content (content.fill index stored) .done
  completes : ∀ (content : Group σ) (paid : Multiset Token),
    (content.fill index stored).Paid fits number size paid → (content.fill index stored).remaining = 0 →
      content.settled = false → ∃ after : Group σ, after.settled = true ∧
        script.Alters number content after (rest (content.fill index stored))

namespace Twin

variable {rules : List (Rule σ)} {fits : Nat → σ → Prop} {size number index : Nat} {deposit : Multiset Token}
  {script script' : Script σ}

/-- A member comes to a group. Either that waits, or it is settled and the deposit is given back. -/
theorem arrive (known : rules[number]? = some (.gate fits size deposit)) (late : script.Late number)
    (late' : script'.Late number)
    (early : ∀ (content : Group σ) (paid : Multiset Token), content.settled = false →
      content.Paid fits number size paid → (number, index) ∉ paid →
        (∃ after : Group σ, after.settled = false ∧ after.Paid fits number size ({(number, index)} + paid) ∧
          script.Alters number content after .done ∧ script'.Alters number content after .done) ∨
        ∃ (after after' : Group σ) (rest rest' : Script σ), after.settled = true ∧ after'.settled = true ∧
          script.Alters number content after rest ∧ script'.Alters number content after' rest' ∧
            Twin rules deposit rest rest') : Twin rules {(number, index)} script script' := by
  refine meet known fun kept content content' allowed nodup => ?_
  -- The rule lets the two runs keep different contents only once both have settled the group.
  rcases allowed with ⟨settled, settled'⟩ | ⟨rfl, unsettled, paid, rfl, slots⟩
  · obtain ⟨after, still, alters⟩ := late content settled
    obtain ⟨after', still', alters'⟩ := late' content' settled'
    exact ⟨⟨after, after', kept, {(number, index)}, .done, .done⟩,
      ⟨alters, alters', .inl ⟨still, still'⟩, le_refl _⟩, .done⟩
  · have missing : (number, index) ∉ paid := by
      rw [Multiset.singleton_add, Multiset.nodup_cons] at nodup
      exact fun came => nodup.1 (Multiset.mem_add.mpr (.inr came))
    rcases early content paid unsettled slots missing with
      ⟨after, waits, slots', alters, alters'⟩ |
        ⟨after, after', rest, rest', settles, settles', alters, alters', twin⟩
    · refine ⟨⟨after, after, deposit + ({(number, index)} + paid), 0, .done, .done⟩,
        ⟨alters, alters', .inr ⟨rfl, waits, _, rfl, slots'⟩, le_of_eq ?_⟩, .done⟩
      simp only
      abel
    · refine ⟨⟨after, after', 0, deposit, rest, rest'⟩,
        ⟨alters, alters', .inl ⟨settles, settles'⟩, ?_⟩, twin⟩
      simp only
      rw [add_zero, add_left_comm]
      exact Multiset.le_add_right ..

theorem fills {rest rest' : Group σ → Script σ} {stored : σ}
    (known : rules[number]? = some (.gate fits size deposit)) (inside : index < size) (fit : fits index stored)
    (fills : script.Fills fits size number index stored rest)
    (fills' : script'.Fills fits size number index stored rest')
    (twin : ∀ (content : Group σ) (paid : Multiset Token), content.Paid fits number size paid →
      content.remaining = 0 → Twin rules deposit (rest content) (rest' content)) :
    Twin rules {(number, index)} script script' := by
  refine arrive known fills.late fills'.late fun content paid unsettled slots missing => ?_
  have filled := slots.fill inside missing fit
  by_cases last : (content.fill index stored).remaining = 0
  · obtain ⟨after, settles, alters⟩ := fills.completes content _ filled last unsettled
    obtain ⟨after', settles', alters'⟩ := fills'.completes content _ filled last unsettled
    exact .inr ⟨after, after', _, _, settles, settles', alters, alters', twin _ _ filled last⟩
  · exact .inl ⟨content.fill index stored, unsettled, filled, fills.waits content _ filled last,
      fills'.waits content _ filled last⟩

theorem tells {rule : Rule σ} (known : rules[number]? = some rule) (tells : script.Tells)
    (tells' : script'.Tells) : Twin rules 0 script script' :=
  meet known fun kept content content' allowed _ =>
    ⟨⟨content, content', kept, 0, .done, .done⟩, ⟨tells _ _, tells' _ _, allowed, le_refl _⟩, .done⟩

theorem handOnce {handOn handOn' : Unit → Script σ} {after after' : Bool → Script σ}
    (known : rules[number]? = some (.gate fits size deposit)) (idle : ∀ won, (after won).Tells)
    (idle' : ∀ won, (after' won).Tells) (twin : Twin rules deposit (handOn ()) (handOn' ())) :
    Twin rules {(number, index)} (Parallel.handOnce number handOn after)
      (Parallel.handOnce number handOn' after') := by
  refine arrive known (Parallel.late_handOnce number (idle false)) (Parallel.late_handOnce number (idle' false))
    fun content paid unsettled _ _ => ?_
  refine .inr ⟨_, _, _, _, rfl, rfl, Parallel.alters_unsettled unsettled, Parallel.alters_unsettled unsettled, ?_⟩
  have both := twin.andThen (tells known (idle true) (idle' true))
  rwa [add_zero] at both

end Twin

namespace Parallel

variable {fits : Nat → σ → Prop} {size : Nat}

theorem fills_fillSlot [Storable β σ] (group index : Nat) (value : β) (handOn : List β → Script σ) :
    (fillSlot group index value handOn).Fills fits size group index (store value)
      fun content => handOn (content.values.filterMap load?) where
  late := late_fillSlot group index value handOn
  waits content paid slots more := alters_fill more
  completes content paid slots last unsettled := by
    refine ⟨(content.fill index (store value)).emptied.settle, rfl, ?_⟩
    rw [← Script.andThen_done (handOn _)]
    exact alters_fill_last last unsettled

theorem fills_settlePair [Storable α σ] [Storable β σ] {first : α → Prop} {second : β → Prop}
    (group index : Nat) (stored : σ) (next : Except ε (α × β) → Script σ) :
    (Script.look group fun content => settlePair next group (content.fill index stored)).Fills
      (StoredPair first second) 2 group index stored fun content =>
        (bothValues content).elim .done fun both => next (.ok both) where
  late := late_settlePair group index stored next
  waits content paid slots more := alters_half (slots.bothValues_eq_none more)
  completes content paid slots last unsettled := by
    obtain ⟨value, other, -, -, -, both⟩ := slots.exists_both last
    refine ⟨Group.settle { content.fill index stored with slots := [none, none] }, rfl, ?_⟩
    rw [both, ← Script.andThen_done (Option.elim _ _ _)]
    exact alters_pair both unsettled

end Parallel

end Deferred
