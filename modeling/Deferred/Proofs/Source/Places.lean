import Deferred.Proofs.Parsing.Spans

/-! The places of a source. A place is reached from the start by taking one character after another, and there is none
behind the end. Positions count characters and offsets count bytes; both grow with each character that is taken, so
either of them tells how much of the source lies in front of a place, and cutting the source at an offset never cuts a
character in two. -/

namespace Deferred

namespace Input

variable {first second third : Input}

theorem head_eq_getElem? (input : Input) : input.head = input.source.chars[input.pos]? := by
  rw [head, input.rest_eq, List.head?_drop]

theorem head_eq_none_iff (input : Input) : input.head = none ↔ input.pos = input.source.chars.length := by
  have inside := input.pos_le
  rw [head_eq_getElem?, List.getElem?_eq_none_iff]
  omega

theorem pos_tail_eq (input : Input) : input.tail.pos = min (input.pos + 1) input.source.chars.length := by
  have inside := input.pos_le
  have ended := input.head_eq_none_iff
  cases stands : input.head with
  | none =>
    have stays : input.tail = input := by
      rw [tail, advance_eq, stands]
      rfl
    have last := ended.mp stands
    rw [stays]
    omega
  | some c =>
    have further : input.pos ≠ input.source.chars.length := fun last => by simp [ended.mpr last] at stands
    rw [pos_tail stands]
    omega

theorem tail_eq_self_iff (input : Input) : input.tail = input ↔ input.pos = input.source.chars.length := by
  have inside := input.pos_le
  have step := input.pos_tail_eq
  constructor
  · intro stays
    rw [stays] at step
    omega
  · intro last
    exact ext_pos input.before_tail.source (by omega)

theorem source_skip (input : Input) (count : Nat) : (input.skip count).source = input.source :=
  (input.before_skip count).source

theorem pos_skip_eq (input : Input) (count : Nat) :
    (input.skip count).pos = min (input.pos + count) input.source.chars.length := by
  induction count generalizing input with
  | zero => exact (Nat.min_eq_left input.pos_le).symm
  | succ count ih =>
    rw [skip, ih, input.before_tail.source, pos_tail_eq]
    omega

theorem Before.take_append_textTo (before : first.Before second) :
    first.source.chars.take first.pos ++ first.textTo second = first.source.chars.take second.pos := by
  rw [before.textTo_eq, first.rest_eq, ← List.take_add, Nat.add_sub_cancel' before.pos]

theorem Before.offset_eq (before : first.Before second) :
    second.offset = first.offset + utf8Length (first.textTo second) := by
  rw [second.offset_eq, before.source, ← before.take_append_textTo, utf8Length_append, first.offset_eq]

/-- The text between two places of a source is made of the characters between their positions. -/
theorem textTo_eq_of_source (same : second.source = first.source) :
    first.textTo second = (first.source.chars.take second.pos).drop first.pos := by
  rcases Nat.le_total first.pos second.pos with pos | pos
  · have before : first.Before second := ⟨same, pos⟩
    rw [before.textTo_eq, first.rest_eq, List.drop_take]
  · have nothing : (first.source.chars.take second.pos).drop first.pos = [] :=
      List.drop_eq_nil_of_le ((List.length_take_le _ _).trans pos)
    have before : second.Before first := ⟨same.symm, pos⟩
    have offset := before.offset_eq
    rw [textTo, nothing]
    split
    next => rfl
    next =>
      have none : second.offset - first.offset = 0 := by omega
      rw [none, takeBytes?, Option.getD_some]

section Steps

theorem isSame_iff (same : second.source = first.source) : first.isSame second = true ↔ first.pos = second.pos := by
  simp [isSame, same]

theorem before_skip_skip (input : Input) {count more : Nat} (fewer : count ≤ more) :
    (input.skip count).Before (input.skip more) := by
  refine ⟨(source_skip input more).trans (source_skip input count).symm, ?_⟩
  rw [pos_skip_eq, pos_skip_eq]
  omega

/-- The text between two places consists of the characters from the one count to the other. -/
theorem textTo_skip_skip (source : Source) (count more : Nat) :
    ((ofSource source).skip count).textTo ((ofSource source).skip more) =
      if count ≤ more then (source.chars.take more).drop count else [] := by
  have inside : ∀ count, ((ofSource source).skip count).source = source := (ofSource source).source_skip
  have pos : ∀ count, ((ofSource source).skip count).pos = min (0 + count) source.chars.length :=
    (ofSource source).pos_skip_eq
  rw [textTo_eq_of_source ((inside more).trans (inside count).symm), inside, pos, pos, Nat.zero_add, Nat.zero_add]
  split
  next fewer =>
    -- Steps behind the end change neither what is taken nor what is dropped of it.
    have taken : source.chars.take (min more source.chars.length) = source.chars.take more := by
      rw [List.take_eq_take_iff]
      omega
    rw [taken]
    by_cases inside : count ≤ source.chars.length
    case pos => rw [Nat.min_eq_left inside]
    case neg =>
      have length := List.length_take_le' more source.chars
      rw [List.drop_eq_nil_of_le (by omega), List.drop_eq_nil_of_le (by omega)]
  next more' =>
    have length := List.length_take_le (min more source.chars.length) source.chars
    exact List.drop_eq_nil_of_le (by omega)

end Steps

end Input

end Deferred
