import Deferred.Parsing.Parse

/-! Reading a source by a grammar directly: recursive descent that returns its outcome, without futures
and without a loop. Only the fuel bounds it. More fuel does not change an outcome, and whatever is read
lies behind the place where the reading starts. -/

namespace Deferred

abbrev Answer (α : Type) : Type :=
  Option (Except ParseError (Parsed α))

structure Input.Before (first second : Input) : Prop where
  source : second.source = first.source
  pos : first.pos ≤ second.pos

structure Parsed.From {α : Type} (parsed : Parsed α) (input : Input) : Prop where
  start : parsed.start = input
  next : input.Before parsed.next

namespace Input.Before

variable {first second third : Input}

theorem refl (input : Input) : input.Before input :=
  ⟨rfl, Nat.le_refl _⟩

theorem trans (before : first.Before second) (before' : second.Before third) : first.Before third :=
  ⟨before'.source.trans before.source, Nat.le_trans before.pos before'.pos⟩

theorem remaining_lt (before : first.Before second) (further : first.pos < second.pos) :
    second.remaining < first.remaining := by
  have inside : second.pos ≤ second.source.size := second.source.size_eq ▸ second.pos_le
  have same := congrArg Source.size before.source
  simp only [Input.remaining]
  omega

theorem advance {c : Char} (moved : first.advance = some (c, second)) : first.Before second := by
  obtain ⟨_, source, pos, _⟩ := Input.advance_eq_some moved
  exact ⟨source, pos ▸ Nat.le_succ _⟩

theorem readChars {text : List Char} (found : first.readChars text = .ok second) :
    first.Before second := by
  induction text generalizing first with
  | nil => exact Except.ok.inj found ▸ refl first
  | cons c rest ih =>
    rw [Input.readChars] at found
    split at found
    next moved =>
      split at found
      next => exact (advance moved).trans (ih found)
      next => exact absurd found (by simp)
    next => exact absurd found (by simp)

end Input.Before

namespace Parsed.From

variable {α β : Type} {input : Input}

theorem empty (value : α) (input : Input) : (Parsed.empty value input).From input :=
  ⟨rfl, .refl input⟩

theorem readSat {accepts : Char → Bool} {expected : String} {parsed : Parsed Char}
    (found : input.readSat accepts expected = .ok parsed) : parsed.From input := by
  rw [Input.readSat] at found
  split at found
  next moved =>
    split at found
    next => exact Except.ok.inj found ▸ ⟨rfl, .advance moved⟩
    next => exact absurd found (by simp)
  next => exact absurd found (by simp)

theorem readLiteral {text : List Char} {parsed : Parsed String}
    (found : input.readLiteral text = .ok parsed) : parsed.From input := by
  rw [Input.readLiteral] at found
  cases read : input.readChars text with
  | error error => exact absurd found (by simp [read, Except.map])
  | ok next =>
    rw [read] at found
    exact Except.ok.inj found ▸ ⟨rfl, .readChars read⟩

theorem readEof {parsed : Parsed Unit} (found : input.readEof = .ok parsed) : parsed.From input := by
  rw [Input.readEof] at found
  split at found
  next => exact Except.ok.inj found ▸ .empty () input
  next => exact absurd found (by simp)

theorem judged {parsed : Parsed α} {judge : α → String → Except Rejection β} {judged : Parsed β}
    (before : parsed.From input) (found : parsed.judged judge = .ok judged) : judged.From input := by
  rw [Parsed.judged] at found
  split at found
  next => exact Except.ok.inj found ▸ ⟨before.start, before.next⟩
  next => exact absurd found (by simp)

end Parsed.From

/-- Items that stand one behind the other, the place behind them, and the failure that ended them. They
may also end with an item that matches the empty text. -/
structure Items (α : Type) where
  values : List α
  next : Input
  failure : Option ParseError

namespace Items

variable {α : Type}

def after (seen : List α) (items : Items α) : Items α :=
  { items with values := seen ++ items.values }

def atLeast (items : Items α) (least : Nat) (start : Input) : Except ParseError (Parsed (List α)) :=
  match items.failure with
  | some error =>
    if least ≤ items.values.length then .ok ⟨items.values, start, items.next⟩ else .error error
  | none => .ok ⟨items.values, start, items.next⟩

theorem atLeast_ok {items : Items α} {least : Nat} {start : Input} {parsed : Parsed (List α)}
    (found : items.atLeast least start = .ok parsed) : parsed = ⟨items.values, start, items.next⟩ := by
  rw [atLeast] at found
  split at found
  next =>
    split at found
    next => exact (Except.ok.inj found).symm
    next => exact absurd found (by simp)
  next => exact (Except.ok.inj found).symm

theorem atLeast_from {items : Items α} {least : Nat} {start : Input} {parsed : Parsed (List α)}
    (before : start.Before items.next) (found : items.atLeast least start = .ok parsed) :
    parsed.From start :=
  atLeast_ok found ▸ ⟨rfl, before⟩

theorem after_after (first second : List α) (items : Items α) :
    (items.after second).after first = items.after (first ++ second) := by
  simp [after]

end Items

namespace Grammar

variable {ρ : Type} {Value : ρ → Type} {α : Type}

def readItems (item : Input → Answer α) : (fuel : Nat) → Input → Option (Items α)
  | 0, _ => none
  | fuel + 1, current =>
    match item current with
    | none => none
    | some (.error error) => some ⟨[], current, some error⟩
    | some (.ok parsed) =>
      if current.pos < parsed.next.pos then
        (readItems item fuel parsed.next).map (·.after [parsed.value])
      else some ⟨[parsed.value], parsed.next, none⟩

def readWith (readRule : (rule : ρ) → Input → Answer (Value rule)) (fuel : Nat) {α : Type} :
    Grammar Value α → Input → Answer α
  | .pure value, input => some (.ok (.empty value input))
  | .fail expected, input => some (.error (input.mismatch expected))
  | .sat accepts expected, input => some (input.readSat accepts expected)
  | .literal text, input => some (input.readLiteral text)
  | .eof, input => some input.readEof
  | .bind first next, input =>
    match first.readWith readRule fuel input with
    | none => none
    | some (.error error) => some (.error error)
    | some (.ok left) =>
      ((next left.value).readWith readRule fuel left.next).map
        (·.map fun right => ⟨right.value, left.start, right.next⟩)
  | .map f grammar, input => (grammar.readWith readRule fuel input).map (·.map (Parsed.map f))
  | .or first second, input =>
    match first.readWith readRule fuel input with
    | none => none
    | some (.error error) =>
      (second.readWith readRule fuel input).map (·.mapError (.alternatives error))
    | some (.ok parsed) => some (.ok parsed)
  | .refine grammar judge, input =>
    (grammar.readWith readRule fuel input).map (·.bind fun parsed => parsed.judged judge)
  | .rep item least, input =>
    (readItems (item.readWith readRule fuel) fuel input).map (·.atLeast least input)
  | .chain first more combine fallback, input =>
    match first.readWith readRule fuel input with
    | none => none
    | some (.error error) =>
      match fallback with
      | some value => some (.ok (.empty value input))
      | none => some (.error error)
    | some (.ok parsed) =>
      (readItems (more.readWith readRule fuel) fuel parsed.next).map fun items =>
        .ok ⟨combine parsed.value items.values, input, items.next⟩
  | .lazy make, input => (make ()).readWith readRule fuel input
  | .ref rule, input => readRule rule input

def readRule (rules : Rules Value) : (fuel : Nat) → (rule : ρ) → Input → Answer (Value rule)
  | 0, _, _ => none
  | fuel + 1, rule, input =>
    match rules rule with
    | some body => body.readWith (readRule rules fuel) fuel input
    | none => some (.error (.undefined input.pos))

def read (rules : Rules Value) (fuel : Nat) (grammar : Grammar Value α) (input : Input) : Answer α :=
  grammar.readWith (readRule rules fuel) fuel input

section Fuel

theorem readItems_mono {item item' : Input → Answer α}
    (keeps : ∀ input answer, item input = some answer → item' input = some answer)
    {fuel fuel' : Nat} (more : fuel ≤ fuel') {input : Input} {items : Items α}
    (found : readItems item fuel input = some items) : readItems item' fuel' input = some items := by
  induction fuel generalizing fuel' input items with
  | zero => exact absurd found (by simp [readItems])
  | succ fuel ih =>
    obtain ⟨fuel', rfl⟩ := Nat.exists_eq_succ_of_ne_zero (Nat.ne_zero_of_lt more)
    rw [readItems] at found ⊢
    cases first : item input with
    | none => exact absurd found (by simp [first])
    | some answer =>
      rw [keeps input answer first]
      rw [first] at found
      cases answer with
      | error error => exact found
      | ok parsed =>
        simp only at found ⊢
        split at found
        next further =>
          obtain ⟨rest, read, rfl⟩ := Option.map_eq_some_iff.mp found
          rw [if_pos further, ih (Nat.le_of_succ_le_succ more) read]
          rfl
        next still => rwa [if_neg still]

theorem readWith_mono {read read' : (rule : ρ) → Input → Answer (Value rule)}
    (keeps : ∀ rule input answer, read rule input = some answer → read' rule input = some answer)
    {fuel fuel' : Nat} (more : fuel ≤ fuel') {grammar : Grammar Value α} {input : Input}
    {answer : Except ParseError (Parsed α)} (found : grammar.readWith read fuel input = some answer) :
    grammar.readWith read' fuel' input = some answer := by
  induction grammar generalizing input with
  | pure | fail | sat | literal | eof => exact found
  | bind first next ihFirst ihNext =>
    rw [readWith] at found ⊢
    cases head : first.readWith read fuel input with
    | none => exact absurd found (by simp [head])
    | some answer =>
      rw [ihFirst head]
      rw [head] at found
      cases answer with
      | error error => exact found
      | ok left =>
        obtain ⟨tail, behind, rfl⟩ := Option.map_eq_some_iff.mp found
        exact Option.map_eq_some_iff.mpr ⟨tail, ihNext left.value behind, rfl⟩
  | map f grammar ih =>
    obtain ⟨inner, behind, rfl⟩ := Option.map_eq_some_iff.mp found
    exact Option.map_eq_some_iff.mpr ⟨inner, ih behind, rfl⟩
  | or first second ihFirst ihSecond =>
    rw [readWith] at found ⊢
    cases head : first.readWith read fuel input with
    | none => exact absurd found (by simp [head])
    | some answer =>
      rw [ihFirst head]
      rw [head] at found
      cases answer with
      | ok parsed => exact found
      | error error =>
        obtain ⟨tail, behind, rfl⟩ := Option.map_eq_some_iff.mp found
        exact Option.map_eq_some_iff.mpr ⟨tail, ihSecond behind, rfl⟩
  | refine grammar judge ih =>
    obtain ⟨inner, behind, rfl⟩ := Option.map_eq_some_iff.mp found
    exact Option.map_eq_some_iff.mpr ⟨inner, ih behind, rfl⟩
  | rep item least ih =>
    obtain ⟨items, behind, rfl⟩ := Option.map_eq_some_iff.mp found
    exact Option.map_eq_some_iff.mpr ⟨items, readItems_mono (fun _ _ => ih) more behind, rfl⟩
  | chain first repeated combine fallback ihFirst ihMore =>
    rw [readWith] at found ⊢
    cases head : first.readWith read fuel input with
    | none => exact absurd found (by simp [head])
    | some answer =>
      rw [ihFirst head]
      rw [head] at found
      cases answer with
      | error error => exact found
      | ok parsed =>
        obtain ⟨items, behind, rfl⟩ := Option.map_eq_some_iff.mp found
        exact Option.map_eq_some_iff.mpr ⟨items, readItems_mono (fun _ _ => ihMore) more behind, rfl⟩
  | lazy make ih => exact ih () found
  | ref rule => exact keeps rule input answer found

variable {rules : Rules Value} {fuel fuel' : Nat}

theorem readRule_mono (more : fuel ≤ fuel') {rule : ρ} {input : Input}
    {answer : Except ParseError (Parsed (Value rule))}
    (found : readRule rules fuel rule input = some answer) :
    readRule rules fuel' rule input = some answer := by
  induction fuel generalizing fuel' rule input with
  | zero => exact absurd found (by simp [readRule])
  | succ fuel ih =>
    obtain ⟨fuel', rfl⟩ := Nat.exists_eq_succ_of_ne_zero (Nat.ne_zero_of_lt more)
    have enough := Nat.le_of_succ_le_succ more
    rw [readRule] at found ⊢
    cases body : rules rule with
    | none => simpa only [body] using found
    | some grammar =>
      simp only [body] at found ⊢
      have keeps : ∀ (other : ρ) (place : Input) (answer : Except ParseError (Parsed (Value other))),
          readRule rules fuel other place = some answer → readRule rules fuel' other place = some answer :=
        fun _ _ _ => ih enough
      exact readWith_mono keeps enough found

/-- An outcome does not depend on how much more fuel there is. -/
theorem read_mono (more : fuel ≤ fuel') {grammar : Grammar Value α} {input : Input}
    {answer : Except ParseError (Parsed α)} (found : read rules fuel grammar input = some answer) :
    read rules fuel' grammar input = some answer :=
  readWith_mono (fun _ _ _ => readRule_mono more) more found

end Fuel

section Place

def Forward (read : Input → Answer α) : Prop :=
  ∀ input parsed, read input = some (.ok parsed) → parsed.From input

theorem forward_readItems {item : Input → Answer α} (forward : Forward item) {fuel : Nat} {input : Input}
    {items : Items α} (found : readItems item fuel input = some items) : input.Before items.next := by
  induction fuel generalizing input items with
  | zero => exact absurd found (by simp [readItems])
  | succ fuel ih =>
    rw [readItems] at found
    split at found
    next => exact absurd found (by simp)
    next => exact Option.some.inj found ▸ .refl input
    next parsed first =>
      have before := (forward input parsed first).next
      split at found
      next =>
        obtain ⟨rest, behind, rfl⟩ := Option.map_eq_some_iff.mp found
        have further : parsed.next.Before rest.next := ih behind
        exact before.trans further
      next => exact Option.some.inj found ▸ before

theorem forward_readWith {read : (rule : ρ) → Input → Answer (Value rule)}
    (forward : ∀ rule, Forward (read rule)) {fuel : Nat} (grammar : Grammar Value α) :
    Forward (grammar.readWith read fuel) := by
  induction grammar with
  | pure value =>
    intro input parsed found
    obtain rfl := Except.ok.inj (Option.some.inj found)
    exact .empty value input
  | fail => exact fun input parsed found => absurd found (by simp [readWith])
  | sat => exact fun input parsed found => .readSat (Option.some.inj found)
  | literal => exact fun input parsed found => .readLiteral (Option.some.inj found)
  | eof => exact fun input parsed found => .readEof (Option.some.inj found)
  | bind first next ihFirst ihNext =>
    intro input parsed found
    rw [readWith] at found
    split at found
    next => exact absurd found (by simp)
    next => exact absurd found (by simp)
    next left head =>
      obtain ⟨outcome, tail, same⟩ := Option.map_eq_some_iff.mp found
      cases outcome with
      | error error => exact absurd same (by simp [Except.map])
      | ok right =>
        obtain rfl := Except.ok.inj same
        have before := ihFirst input left head
        exact ⟨before.start, before.next.trans (ihNext left.value left.next right tail).next⟩
  | map f grammar ih =>
    intro input parsed found
    obtain ⟨outcome, inner, same⟩ := Option.map_eq_some_iff.mp found
    cases outcome with
    | error error => exact absurd same (by simp [Except.map])
    | ok value =>
      obtain rfl := Except.ok.inj same
      exact ⟨(ih input value inner).start, (ih input value inner).next⟩
  | or first second ihFirst ihSecond =>
    intro input parsed found
    rw [readWith] at found
    split at found
    next => exact absurd found (by simp)
    next =>
      obtain ⟨outcome, tail, same⟩ := Option.map_eq_some_iff.mp found
      cases outcome with
      | error error => cases same
      | ok value =>
        obtain rfl := Except.ok.inj same
        exact ihSecond input value tail
    next head =>
      obtain rfl := Except.ok.inj (Option.some.inj found)
      exact ihFirst input _ head
  | refine grammar judge ih =>
    intro input parsed found
    obtain ⟨outcome, inner, same⟩ := Option.map_eq_some_iff.mp found
    cases outcome with
    | error error => exact absurd same (by simp [Except.bind])
    | ok value => exact .judged (ih input value inner) same
  | rep item least ih =>
    intro input parsed found
    obtain ⟨items, inner, same⟩ := Option.map_eq_some_iff.mp found
    exact Items.atLeast_from (forward_readItems ih inner) same
  | chain first more combine fallback ihFirst ihMore =>
    intro input parsed found
    rw [readWith] at found
    split at found
    next => exact absurd found (by simp)
    next =>
      split at found
      next value =>
        obtain rfl := Except.ok.inj (Option.some.inj found)
        exact .empty value input
      next => exact absurd found (by simp)
    next head first =>
      obtain ⟨items, inner, same⟩ := Option.map_eq_some_iff.mp found
      obtain rfl := Except.ok.inj same
      exact ⟨rfl, (ihFirst input head first).next.trans (forward_readItems ihMore inner)⟩
  | lazy make ih => exact ih ()
  | ref rule => exact forward rule

theorem forward_readRule (rules : Rules Value) (fuel : Nat) (rule : ρ) :
    Forward (readRule rules fuel rule) := by
  induction fuel generalizing rule with
  | zero => exact fun input parsed found => absurd found (by simp [readRule])
  | succ fuel ih =>
    intro input parsed found
    rw [readRule] at found
    split at found
    next body _ => exact forward_readWith ih body input parsed found
    next => exact absurd found (by simp)

theorem forward_read (rules : Rules Value) (fuel : Nat) (grammar : Grammar Value α) :
    Forward (read rules fuel grammar) :=
  forward_readWith (forward_readRule rules fuel) grammar

end Place

end Grammar

end Deferred
