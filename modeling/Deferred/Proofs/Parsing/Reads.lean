import Deferred.Proofs.Parsing.Read

/-! Direct reading as a relation between grammars, places and outcomes, with an equation for each form
of grammar. A reading ends if none of the rules that it uses leads back to itself; a rule that does may
be used behind text. -/

namespace Deferred.Grammar

variable {ρ : Type} {Value : ρ → Type} {rules : Rules Value} {α β γ : Type} {input : Input}

/-- Reading by a grammar comes to an outcome. -/
def Reads (rules : Rules Value) (grammar : Grammar Value α) (input : Input)
    (answer : Except ParseError (Parsed α)) : Prop :=
  ∃ fuel, read rules fuel grammar input = some answer

inductive Collects (reads : Input → Except ParseError (Parsed α) → Prop) : Input → Items α → Prop
  | failed {input error} (failed : reads input (.error error)) :
      Collects reads input ⟨[], input, some error⟩
  | stopped {input parsed} (read : reads input (.ok parsed)) (still : ¬input.pos < parsed.next.pos) :
      Collects reads input ⟨[parsed.value], parsed.next, none⟩
  | more {input parsed items} (read : reads input (.ok parsed)) (further : input.pos < parsed.next.pos)
      (collects : Collects reads parsed.next items) : Collects reads input (items.after [parsed.value])

theorem Reads.both {grammar : Grammar Value α} {other : Grammar Value β} {place : Input}
    {answer : Except ParseError (Parsed α)} {answer' : Except ParseError (Parsed β)}
    (reads : Reads rules grammar input answer) (reads' : Reads rules other place answer') :
    ∃ fuel, read rules fuel grammar input = some answer ∧ read rules fuel other place = some answer' := by
  obtain ⟨fuel, found⟩ := reads
  obtain ⟨fuel', found'⟩ := reads'
  exact ⟨max fuel fuel', read_mono (Nat.le_max_left ..) found, read_mono (Nat.le_max_right ..) found'⟩

theorem Reads.unique {grammar : Grammar Value α} {answer answer' : Except ParseError (Parsed α)}
    (reads : Reads rules grammar input answer) (reads' : Reads rules grammar input answer') :
    answer = answer' := by
  obtain ⟨fuel, found, found'⟩ := reads.both reads'
  exact Option.some.inj (found.symm.trans found')

theorem Reads.from {grammar : Grammar Value α} {parsed : Parsed α}
    (reads : Reads rules grammar input (.ok parsed)) : parsed.From input := by
  obtain ⟨fuel, found⟩ := reads
  exact forward_read rules fuel grammar input parsed found

theorem Collects.of_readItems {item : Input → Answer α} {reads : Input → Except ParseError (Parsed α) → Prop}
    (sound : ∀ input answer, item input = some answer → reads input answer) {items : Items α} {count : Nat}
    (found : readItems item count input = some items) : Collects reads input items := by
  induction count generalizing input items with
  | zero => exact absurd found (by simp [readItems])
  | succ count ih =>
    rw [readItems] at found
    split at found
    next => exact absurd found (by simp)
    next error first => exact Option.some.inj found ▸ .failed (sound _ _ first)
    next parsed first =>
      split at found
      next further =>
        obtain ⟨rest, behind, rfl⟩ := Option.map_eq_some_iff.mp found
        exact .more (sound _ _ first) further (ih behind)
      next still => exact Option.some.inj found ▸ .stopped (sound _ _ first) still

theorem Collects.exists_fuel {item : Grammar Value α} {items : Items α}
    (collects : Collects (Reads rules item) input items) :
    ∃ fuel, readItems (read rules fuel item) fuel input = some items := by
  induction collects with
  | failed reads =>
    obtain ⟨fuel, found⟩ := reads
    refine ⟨fuel + 1, ?_⟩
    rw [readItems, read_mono (Nat.le_succ fuel) found]
  | stopped reads still =>
    obtain ⟨fuel, found⟩ := reads
    refine ⟨fuel + 1, ?_⟩
    rw [readItems, read_mono (Nat.le_succ fuel) found]
    exact if_neg still
  | more reads further _ ih =>
    obtain ⟨fuel, found⟩ := reads
    obtain ⟨fuel', rest⟩ := ih
    have enough : fuel' ≤ max fuel fuel' := Nat.le_max_right ..
    have rest' := readItems_mono (fun _ _ => read_mono (Nat.le_succ_of_le enough)) enough rest
    refine ⟨max fuel fuel' + 1, ?_⟩
    rw [readItems, read_mono (Nat.le_succ_of_le (Nat.le_max_left ..)) found]
    exact (if_pos further).trans (congrArg (Option.map _) rest')

section Forms

theorem reads_iff_of_read_eq {grammar : Grammar Value α} {answer answer' : Except ParseError (Parsed α)}
    (found : ∀ fuel, read rules fuel grammar input = some answer') :
    Reads rules grammar input answer ↔ answer = answer' :=
  ⟨fun ⟨fuel, same⟩ => Option.some.inj (same.symm.trans (found fuel)), fun same =>
    ⟨0, same ▸ found 0⟩⟩

theorem reads_pure {value : α} {answer : Except ParseError (Parsed α)} :
    Reads rules (.pure value) input answer ↔ answer = .ok (.empty value input) :=
  reads_iff_of_read_eq fun _ => rfl

theorem reads_fail {expected : String} {answer : Except ParseError (Parsed α)} :
    Reads rules (.fail expected) input answer ↔ answer = .error (input.mismatch expected) :=
  reads_iff_of_read_eq fun _ => rfl

theorem reads_sat {accepts : Char → Bool} {expected : String}
    {answer : Except ParseError (Parsed Char)} :
    Reads rules (.sat accepts expected) input answer ↔ answer = input.readSat accepts expected :=
  reads_iff_of_read_eq fun _ => rfl

theorem reads_literal {text : List Char} {answer : Except ParseError (Parsed String)} :
    Reads rules (.literal text) input answer ↔ answer = input.readLiteral text :=
  reads_iff_of_read_eq fun _ => rfl

theorem reads_eof {answer : Except ParseError (Parsed Unit)} :
    Reads rules .eof input answer ↔ answer = input.readEof :=
  reads_iff_of_read_eq fun _ => rfl

theorem reads_map {f : α → β} {grammar : Grammar Value α} {answer : Except ParseError (Parsed β)} :
    Reads rules (.map f grammar) input answer ↔
      ∃ inner, Reads rules grammar input inner ∧ answer = inner.map (Parsed.map f) := by
  constructor
  case mp =>
    intro given
    obtain ⟨fuel, found⟩ := given
    obtain ⟨inner, read, rfl⟩ := Option.map_eq_some_iff.mp found
    exact ⟨inner, ⟨fuel, read⟩, rfl⟩
  case mpr =>
    intro given
    obtain ⟨inner, ⟨fuel, read⟩, rfl⟩ := given
    exact ⟨fuel, Option.map_eq_some_iff.mpr ⟨inner, read, rfl⟩⟩

theorem reads_refine {grammar : Grammar Value α} {judge : α → String → Except Rejection β}
    {answer : Except ParseError (Parsed β)} :
    Reads rules (.refine grammar judge) input answer ↔
      ∃ inner, Reads rules grammar input inner ∧ answer = inner.bind fun parsed => parsed.judged judge := by
  constructor
  case mp =>
    intro given
    obtain ⟨fuel, found⟩ := given
    obtain ⟨inner, read, rfl⟩ := Option.map_eq_some_iff.mp found
    exact ⟨inner, ⟨fuel, read⟩, rfl⟩
  case mpr =>
    intro given
    obtain ⟨inner, ⟨fuel, read⟩, rfl⟩ := given
    exact ⟨fuel, Option.map_eq_some_iff.mpr ⟨inner, read, rfl⟩⟩

theorem reads_bind {first : Grammar Value α} {next : α → Grammar Value β}
    {answer : Except ParseError (Parsed β)} :
    Reads rules (.bind first next) input answer ↔
      (∃ error, Reads rules first input (.error error) ∧ answer = .error error) ∨
        ∃ left inner, Reads rules first input (.ok left) ∧ Reads rules (next left.value) left.next inner ∧
          answer = inner.map fun right => ⟨right.value, left.start, right.next⟩ := by
  constructor
  case mp =>
    intro given
    obtain ⟨fuel, found⟩ := given
    rw [read, readWith] at found
    split at found
    next => exact absurd found (by simp)
    next error failed => exact .inl ⟨error, ⟨fuel, failed⟩, (Option.some.inj found).symm⟩
    next left head =>
      obtain ⟨inner, tail, rfl⟩ := Option.map_eq_some_iff.mp found
      exact .inr ⟨left, inner, ⟨fuel, head⟩, ⟨fuel, tail⟩, rfl⟩
  case mpr =>
    intro given
    rcases given with ⟨error, ⟨fuel, failed⟩, rfl⟩ | ⟨left, inner, head, tail, rfl⟩
    · refine ⟨fuel, ?_⟩
      rw [read] at failed
      rw [read, readWith, failed]
    · obtain ⟨fuel, first, behind⟩ := head.both tail
      refine ⟨fuel, ?_⟩
      rw [read] at first
      rw [read, readWith, first]
      exact congrArg (Option.map _) behind

theorem reads_or {first second : Grammar Value α} {answer : Except ParseError (Parsed α)} :
    Reads rules (.or first second) input answer ↔
      (∃ parsed, Reads rules first input (.ok parsed) ∧ answer = .ok parsed) ∨
        ∃ error inner, Reads rules first input (.error error) ∧ Reads rules second input inner ∧
          answer = inner.mapError (.alternatives error) := by
  constructor
  case mp =>
    intro given
    obtain ⟨fuel, found⟩ := given
    rw [read, readWith] at found
    split at found
    next => exact absurd found (by simp)
    next error failed =>
      obtain ⟨inner, tail, rfl⟩ := Option.map_eq_some_iff.mp found
      exact .inr ⟨error, inner, ⟨fuel, failed⟩, ⟨fuel, tail⟩, rfl⟩
    next parsed head => exact .inl ⟨parsed, ⟨fuel, head⟩, (Option.some.inj found).symm⟩
  case mpr =>
    intro given
    rcases given with ⟨parsed, ⟨fuel, head⟩, rfl⟩ | ⟨error, inner, failed, tail, rfl⟩
    · refine ⟨fuel, ?_⟩
      rw [read] at head
      rw [read, readWith, head]
    · obtain ⟨fuel, first, behind⟩ := failed.both tail
      refine ⟨fuel, ?_⟩
      rw [read] at first
      rw [read, readWith, first]
      exact congrArg (Option.map _) behind

theorem reads_rep {item : Grammar Value α} {least : Nat} {answer : Except ParseError (Parsed (List α))} :
    Reads rules (.rep item least) input answer ↔
      ∃ items, Collects (Reads rules item) input items ∧ answer = items.atLeast least input := by
  constructor
  case mp =>
    intro given
    obtain ⟨fuel, found⟩ := given
    obtain ⟨items, collected, rfl⟩ := Option.map_eq_some_iff.mp found
    exact ⟨items, .of_readItems (fun _ _ read => ⟨fuel, read⟩) collected, rfl⟩
  case mpr =>
    intro given
    obtain ⟨items, collects, rfl⟩ := given
    obtain ⟨fuel, collected⟩ := collects.exists_fuel
    exact ⟨fuel, Option.map_eq_some_iff.mpr ⟨items, collected, rfl⟩⟩

theorem reads_chain {first : Grammar Value α} {more : Grammar Value β} {combine : α → List β → γ}
    {fallback : Option γ} {answer : Except ParseError (Parsed γ)} :
    Reads rules (.chain first more combine fallback) input answer ↔
      (∃ error, Reads rules first input (.error error) ∧
        answer = (fallback.map fun value => .ok (.empty value input)).getD (.error error)) ∨
        ∃ parsed items, Reads rules first input (.ok parsed) ∧
          Collects (Reads rules more) parsed.next items ∧
            answer = .ok ⟨combine parsed.value items.values, input, items.next⟩ := by
  constructor
  case mp =>
    intro given
    obtain ⟨fuel, found⟩ := given
    rw [read, readWith] at found
    split at found
    next => exact absurd found (by simp)
    next error failed =>
      refine .inl ⟨error, ⟨fuel, failed⟩, ?_⟩
      cases fallback with
      | none => exact (Option.some.inj found).symm
      | some value => exact (Option.some.inj found).symm
    next parsed head =>
      obtain ⟨items, collected, rfl⟩ := Option.map_eq_some_iff.mp found
      exact .inr ⟨parsed, items, ⟨fuel, head⟩, .of_readItems (fun _ _ read => ⟨fuel, read⟩) collected, rfl⟩
  case mpr =>
    intro given
    rcases given with ⟨error, ⟨fuel, failed⟩, rfl⟩ | ⟨parsed, items, ⟨fuel, head⟩, collects, rfl⟩
    · refine ⟨fuel, ?_⟩
      rw [read] at failed
      rw [read, readWith, failed]
      cases fallback with
      | none => rfl
      | some value => rfl
    · obtain ⟨fuel', collected⟩ := collects.exists_fuel
      have first := read_mono (Nat.le_max_left fuel fuel') head
      have enough : fuel' ≤ max fuel fuel' := Nat.le_max_right ..
      have rest := readItems_mono (fun _ _ => read_mono enough) enough collected
      refine ⟨max fuel fuel', ?_⟩
      rw [read] at first
      rw [read, readWith, first]
      exact congrArg (Option.map _) rest

theorem reads_ref {rule : ρ} {answer : Except ParseError (Parsed (Value rule))} :
    Reads rules (.ref rule) input answer ↔
      (∃ body, rules rule = some body ∧ Reads rules body input answer) ∨
        rules rule = none ∧ answer = .error (.undefined input.pos) := by
  constructor
  case mp =>
    intro given
    obtain ⟨fuel, found⟩ := given
    rw [read, readWith] at found
    cases fuel with
    | zero => exact absurd found (by simp [readRule])
    | succ fuel =>
      rw [readRule] at found
      split at found
      next body defined => exact .inl ⟨body, defined, fuel, found⟩
      next undefined => exact .inr ⟨undefined, (Option.some.inj found).symm⟩
  case mpr =>
    intro given
    rcases given with ⟨body, defined, fuel, found⟩ | ⟨undefined, rfl⟩
    · refine ⟨fuel + 1, ?_⟩
      rw [read, readWith, readRule, defined]
      exact found
    · refine ⟨1, ?_⟩
      rw [read, readWith, readRule, undefined]

end Forms

end Deferred.Grammar
