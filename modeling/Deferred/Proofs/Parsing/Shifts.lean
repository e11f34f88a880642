import Deferred.Parsing.Characters
import Deferred.Proofs.Parsing.Outcomes
import Deferred.Proofs.Parsing.Takes

/-! Reading does not depend on the text in front of the place where it starts. The same text behind some other
text is read alike: values, matched texts and rests are the same, and all positions are further on by the text in
front, in characters and in bytes. The proof runs both readings side by side; places of the two sources
correspond if the same text is left there. -/

namespace Deferred

def ParseError.shift (count : Nat) : ParseError → ParseError
  | .mismatch expected found pos => .mismatch expected found (count + pos)
  | .alternatives first second => .alternatives (first.shift count) (second.shift count)
  | .undefined pos => .undefined (count + pos)

structure Input.Behind (front : List Char) (input moved : Input) : Prop where
  chars : moved.source.chars = front ++ input.source.chars
  pos : moved.pos = front.length + input.pos

namespace Input.Behind

variable {front : List Char} {input moved later later' : Input}

theorem rest (behind : input.Behind front moved) : moved.rest = input.rest := by
  rw [moved.rest_eq, input.rest_eq, behind.chars, behind.pos, List.drop_length_add_append]

theorem offset (behind : input.Behind front moved) : moved.offset = utf8Length front + input.offset := by
  rw [moved.offset_eq, input.offset_eq, behind.chars, behind.pos, List.take_length_add_append,
    utf8Length_append]

theorem head (behind : input.Behind front moved) : moved.head = input.head := by
  rw [Input.head, Input.head, behind.rest]

theorem tail (behind : input.Behind front moved) : input.tail.Behind front moved.tail := by
  have chars : moved.tail.source.chars = front ++ input.tail.source.chars := by
    rw [moved.before_tail.source, input.before_tail.source, behind.chars]
  cases stands : input.head with
  | none =>
    have stays : ∀ place : Input, place.head = none → place.tail = place := fun place none => by
      rw [Input.tail, place.advance_eq, none, Option.map_none]
    rw [stays input stands, stays moved (behind.head.trans stands)]
    exact behind
  | some c =>
    refine ⟨chars, ?_⟩
    rw [pos_tail stands, pos_tail (behind.head.trans stands), behind.pos, Nat.add_assoc]

theorem mismatch (behind : input.Behind front moved) (expected : String) :
    moved.mismatch expected = (input.mismatch expected).shift front.length := by
  simp only [Input.mismatch, ParseError.shift, Input.found, behind.head, behind.pos]

theorem textTo (behind : input.Behind front moved) (behind' : later.Behind front later') :
    moved.textTo later' = input.textTo later := by
  simp only [Input.textTo, behind.offset, behind'.offset, behind.rest, Nat.add_lt_add_iff_left,
    Nat.add_sub_add_left]

end Input.Behind

structure Parsed.Behind {α : Type} (front : List Char) (parsed moved : Parsed α) : Prop where
  value : moved.value = parsed.value
  start : parsed.start.Behind front moved.start
  next : parsed.next.Behind front moved.next

/-- Two successes that correspond, or one and the same failure so many characters further on. -/
inductive Alike {α β : Type} (count : Nat) (same : α → β → Prop) :
    Except ParseError α → Except ParseError β → Prop
  | ok {value moved} (corresponds : same value moved) : Alike count same (.ok value) (.ok moved)
  | error (error : ParseError) : Alike count same (.error error) (.error (error.shift count))

theorem Alike.mono {α β : Type} {count : Nat} {same same' : α → β → Prop} {outcome : Except ParseError α}
    {outcome' : Except ParseError β} (alike : Alike count same outcome outcome')
    (weaker : ∀ value moved, same value moved → same' value moved) : Alike count same' outcome outcome' := by
  cases alike with
  | ok corresponds => exact .ok (weaker _ _ corresponds)
  | error error => exact .error error

structure Items.Behind {α : Type} (front : List Char) (items moved : Items α) : Prop where
  values : moved.values = items.values
  next : items.next.Behind front moved.next
  failure : moved.failure = items.failure.map (·.shift front.length)

namespace Grammar

variable {ρ : Type} {Value : ρ → Type} {rules : Rules Value} {σ α β γ : Type} {front : List Char}
  {input moved : Input}

abbrev AnswersAlike (front : List Char) : Answer α → Answer α → Prop :=
  Option.Rel (Alike front.length (Parsed.Behind front))

def Blind (front : List Char) (read : Input → Answer α) : Prop :=
  ∀ ⦃input moved⦄, input.Behind front moved → AnswersAlike front (read input) (read moved)

section Leaves

theorem alike_readSat (behind : input.Behind front moved) (accepts : Char → Bool) (expected : String) :
    Alike front.length (Parsed.Behind front) (input.readSat accepts expected)
      (moved.readSat accepts expected) := by
  rw [Input.readSat, Input.readSat, Input.advance_eq, Input.advance_eq, behind.head, behind.mismatch]
  cases input.head with
  | none => exact .error _
  | some c =>
    simp only [Option.map_some]
    split
    next => exact .ok ⟨rfl, behind, behind.tail⟩
    next => exact .error _

theorem alike_readChars (behind : input.Behind front moved) (text : List Char) :
    Alike front.length (Input.Behind front) (input.readChars text) (moved.readChars text) := by
  induction text generalizing input moved with
  | nil => exact .ok behind
  | cons c rest ih =>
    rw [Input.readChars, Input.readChars, Input.advance_eq, Input.advance_eq, behind.head, behind.mismatch]
    cases input.head with
    | none => exact .error _
    | some d =>
      simp only [Option.map_some]
      split
      next => exact ih behind.tail
      next => exact .error _

theorem alike_readLiteral (behind : input.Behind front moved) (text : List Char) :
    Alike front.length (Parsed.Behind front) (input.readLiteral text) (moved.readLiteral text) := by
  have alike := alike_readChars behind text
  rw [Input.readLiteral, Input.readLiteral]
  revert alike
  generalize input.readChars text = outcome, moved.readChars text = outcome'
  intro alike
  cases alike with
  | ok next => exact .ok ⟨rfl, behind, next⟩
  | error error => exact .error error

theorem alike_readEof (behind : input.Behind front moved) :
    Alike front.length (Parsed.Behind front) input.readEof moved.readEof := by
  rw [Input.readEof, Input.readEof, Input.atEnd, Input.atEnd, behind.rest, behind.mismatch]
  split
  next => exact .ok ⟨rfl, behind, behind⟩
  next => exact .error _

/-- A judge sees the value and the matched text, and both are the same. -/
theorem alike_judged {parsed parsed' : Parsed α} (corresponds : parsed.Behind front parsed')
    (judge : α → String → Except Rejection β) :
    Alike front.length (Parsed.Behind front) (parsed.judged judge) (parsed'.judged judge) := by
  have text : parsed'.matched = parsed.matched := by
    rw [Parsed.matched, Parsed.matched, corresponds.start.textTo corresponds.next]
  rw [Parsed.judged, Parsed.judged, corresponds.value, text, Parsed.pos, Parsed.pos, corresponds.start.pos]
  split
  next => exact .ok ⟨rfl, corresponds.start, corresponds.next⟩
  next => exact .error _

end Leaves

section Runs

theorem rel_map {δ ε : Type} {related : α → β → Prop} {related' : δ → ε → Prop} {f : α → δ} {g : β → ε}
    {first : Option α} {second : Option β} (rel : Option.Rel related first second)
    (follows : ∀ {value value'}, related value value' → related' (f value) (g value')) :
    Option.Rel related' (first.map f) (second.map g) := by
  cases rel with
  | none => exact .none
  | some same => exact .some (follows same)

theorem AnswersAlike.cases {answer answer' : Answer α} (alike : AnswersAlike front answer answer') :
    (answer = none ∧ answer' = none) ∨
      (∃ error, answer = some (.error error) ∧ answer' = some (.error (error.shift front.length))) ∨
      ∃ parsed parsed', answer = some (.ok parsed) ∧ answer' = some (.ok parsed') ∧
        parsed.Behind front parsed' := by
  cases alike with
  | none => exact .inl ⟨rfl, rfl⟩
  | some alike =>
    cases alike with
    | error error => exact .inr (.inl ⟨error, rfl, rfl⟩)
    | ok corresponds => exact .inr (.inr ⟨_, _, rfl, rfl, corresponds⟩)

theorem further_iff {next next' : Input} (behind : input.Behind front moved)
    (behind' : next.Behind front next') : moved.pos < next'.pos ↔ input.pos < next.pos := by
  rw [behind.pos, behind'.pos, Nat.add_lt_add_iff_left]

theorem alike_readItems {item : Input → Answer α} (blind : Blind front item) (fuel : Nat)
    (behind : input.Behind front moved) :
    Option.Rel (Items.Behind front) (readItems item fuel input) (readItems item fuel moved) := by
  induction fuel generalizing input moved with
  | zero => exact .none
  | succ fuel ih =>
    rw [readItems, readItems]
    rcases (blind behind).cases with ⟨none, none'⟩ | ⟨error, failed, failed'⟩ |
      ⟨parsed, parsed', read, read', corresponds⟩
    · rw [none, none']
      exact .none
    · rw [failed, failed']
      exact .some ⟨rfl, behind, rfl⟩
    · simp only [read, read', further_iff behind corresponds.next]
      split
      next =>
        refine rel_map (ih corresponds.next) fun rest => ⟨?_, rest.next, rest.failure⟩
        simp only [Items.after, corresponds.value, rest.values]
      next => exact .some ⟨by rw [corresponds.value], corresponds.next, rfl⟩

theorem alike_atLeast {items items' : Items α} (corresponds : items.Behind front items') (least : Nat)
    (behind : input.Behind front moved) :
    Alike front.length (Parsed.Behind front) (items.atLeast least input) (items'.atLeast least moved) := by
  rw [Items.atLeast, Items.atLeast, corresponds.failure, corresponds.values]
  cases items.failure with
  | none => exact .ok ⟨rfl, behind, corresponds.next⟩
  | some error =>
    simp only [Option.map_some]
    split
    next => exact .ok ⟨rfl, behind, corresponds.next⟩
    next => exact .error error

end Runs

section Readers

theorem blind_readWith {read : (rule : ρ) → Input → Answer (Value rule)}
    (blind : ∀ rule, Blind front (read rule)) {fuel : Nat} (grammar : Grammar Value α) :
    Blind front (grammar.readWith read fuel) := by
  induction grammar with
  | pure value => exact fun input moved behind => .some (.ok ⟨rfl, behind, behind⟩)
  | fail expected =>
    intro input moved behind
    rw [readWith, readWith, behind.mismatch]
    exact .some (.error _)
  | sat accepts expected => exact fun input moved behind => .some (alike_readSat behind accepts expected)
  | literal text => exact fun input moved behind => .some (alike_readLiteral behind text)
  | eof => exact fun input moved behind => .some (alike_readEof behind)
  | bind first next ihFirst ihNext =>
    intro input moved behind
    rw [readWith, readWith]
    rcases (ihFirst behind).cases with ⟨none, none'⟩ | ⟨error, failed, failed'⟩ |
      ⟨left, left', head, head', corresponds⟩
    · rw [none, none']
      exact .none
    · rw [failed, failed']
      exact .some (.error error)
    · simp only [head, head', corresponds.value]
      refine rel_map (ihNext left.value corresponds.next) fun tail => ?_
      cases tail with
      | error error => exact .error error
      | ok right => exact .ok ⟨right.value, corresponds.start, right.next⟩
  | map f grammar ih =>
    intro input moved behind
    refine rel_map (ih behind) fun inner => ?_
    cases inner with
    | error error => exact .error error
    | ok parsed => exact .ok ⟨congrArg f parsed.value, parsed.start, parsed.next⟩
  | or first second ihFirst ihSecond =>
    intro input moved behind
    rw [readWith, readWith]
    rcases (ihFirst behind).cases with ⟨none, none'⟩ | ⟨error, failed, failed'⟩ |
      ⟨left, left', head, head', corresponds⟩
    · rw [none, none']
      exact .none
    · rw [failed, failed']
      refine rel_map (ihSecond behind) fun inner => ?_
      cases inner with
      | error error' => exact .error (.alternatives error error')
      | ok parsed => exact .ok parsed
    · rw [head, head']
      exact .some (.ok corresponds)
  | refine grammar judge ih =>
    intro input moved behind
    refine rel_map (ih behind) fun inner => ?_
    cases inner with
    | error error => exact .error error
    | ok parsed => exact alike_judged parsed judge
  | rep item least ih =>
    intro input moved behind
    exact rel_map (alike_readItems ih fuel behind) fun items => alike_atLeast items least behind
  | chain first more combine fallback ihFirst ihMore =>
    intro input moved behind
    rw [readWith, readWith]
    rcases (ihFirst behind).cases with ⟨none, none'⟩ | ⟨error, failed, failed'⟩ |
      ⟨left, left', head, head', corresponds⟩
    · rw [none, none']
      exact .none
    · rw [failed, failed']
      cases fallback with
      | none => exact .some (.error error)
      | some value => exact .some (.ok ⟨rfl, behind, behind⟩)
    · rw [head, head']
      refine rel_map (alike_readItems ihMore fuel corresponds.next) fun items => .ok ⟨?_, behind, items.next⟩
      simp only [corresponds.value, items.values]
  | lazy make ih => exact ih ()
  | ref rule => exact blind rule

theorem blind_readRule (rules : Rules Value) (fuel : Nat) (rule : ρ) : Blind front (readRule rules fuel rule) := by
  induction fuel generalizing rule with
  | zero => exact fun input moved behind => .none
  | succ fuel ih =>
    intro input moved behind
    rw [readRule, readRule]
    cases rules rule with
    | none =>
      rw [behind.pos]
      exact .some (.error (.undefined input.pos))
    | some body => exact blind_readWith ih body behind

/-- With the same fuel, both readings come to outcomes that correspond, or both need more of it. -/
theorem blind_read (rules : Rules Value) (fuel : Nat) (grammar : Grammar Value α) :
    Blind front (read rules fuel grammar) :=
  blind_readWith (blind_readRule rules fuel) grammar

theorem Reads.exists_moved {grammar : Grammar Value α} {answer : Except ParseError (Parsed α)}
    (reads : Reads rules grammar input answer) (behind : input.Behind front moved) :
    ∃ answer', Reads rules grammar moved answer' ∧
      Alike front.length (Parsed.Behind front) answer answer' := by
  obtain ⟨fuel, found⟩ := reads
  have alike := blind_read rules fuel grammar behind
  rw [found] at alike
  generalize found' : read rules fuel grammar moved = answer' at alike
  cases alike with
  | some alike => exact ⟨_, ⟨fuel, found'⟩, alike⟩

theorem Reads.exists_original {grammar : Grammar Value α} {answer' : Except ParseError (Parsed α)}
    (reads : Reads rules grammar moved answer') (behind : input.Behind front moved) :
    ∃ answer, Reads rules grammar input answer ∧
      Alike front.length (Parsed.Behind front) answer answer' := by
  obtain ⟨fuel, found'⟩ := reads
  have alike := blind_read rules fuel grammar behind
  rw [found'] at alike
  generalize found : read rules fuel grammar input = answer at alike
  cases alike with
  | some alike => exact ⟨_, ⟨fuel, found⟩, alike⟩

end Readers

section Suffixes

/-- A place behind some characters of a source, and the start of the text that is left there. -/
theorem behind_skip (source : Source) {count : Nat} (inside : count ≤ source.chars.length) (mark : Nat) :
    (Input.ofList (source.chars.drop count) mark).Behind (source.chars.take count)
      ((Input.ofSource source).skip count) := by
  have skipped := (Input.ofSource source).before_skip count
  refine ⟨?_, ?_⟩
  · rw [skipped.source]
    exact (List.take_append_drop count source.chars).symm
  · rw [Input.pos_skip inside, List.length_take, Nat.min_eq_left inside]
    exact Nat.add_comm 0 count

structure MovedBy (count bytes : Nat) (parsed moved : Parsed α) : Prop where
  value : moved.value = parsed.value
  matched : moved.matched = parsed.matched
  rest : moved.next.rest = parsed.next.rest
  start_pos : moved.start.pos = count + parsed.start.pos
  start_offset : moved.start.offset = bytes + parsed.start.offset
  next_pos : moved.next.pos = count + parsed.next.pos
  next_offset : moved.next.offset = bytes + parsed.next.offset

theorem movedBy_of_behind {parsed moved : Parsed α} (behind : parsed.Behind front moved) :
    MovedBy front.length (utf8Length front) parsed moved where
  value := behind.value
  matched := by rw [Parsed.matched, Parsed.matched, behind.start.textTo behind.next]
  rest := behind.next.rest
  start_pos := behind.start.pos
  start_offset := behind.start.offset
  next_pos := behind.next.pos
  next_offset := behind.next.offset

/-- Reading from a place in a source and reading the text that is left there as a source of its own come to the
same, but for the places. Both end, or none does. If they succeed then with the same value, the same matched text and
the same rest, where all positions differ by the characters in front and all offsets by their bytes; if they fail then
with the same error, where the position of each leaf differs by the characters in front. -/
theorem parse_independent_of_text_in_front [Storable (Except ParseError (Parsed α)) σ] (rules : Rules Value)
    (grammar : Grammar Value α) (source : Source) {count : Nat} (inside : count ≤ source.chars.length)
    (mark : Nat) :
    let here := (Input.ofSource source).skip count
    let suffix := Input.ofList (source.chars.drop count) mark
    let alike := Alike count (MovedBy (α := α) count (utf8Length (source.chars.take count)))
    (∀ answer, Gives σ rules grammar suffix answer →
      ∃ moved, Gives σ rules grammar here moved ∧ alike answer moved) ∧
    ∀ moved, Gives σ rules grammar here moved →
      ∃ answer, Gives σ rules grammar suffix answer ∧ alike answer moved := by
  intro here suffix alike
  have behind : suffix.Behind (source.chars.take count) here := behind_skip source inside mark
  have length : (source.chars.take count).length = count := by
    rw [List.length_take, Nat.min_eq_left inside]
  have weaker : ∀ {answer moved}, Alike (source.chars.take count).length
      (Parsed.Behind (source.chars.take count)) answer moved → alike answer moved := by
    intro answer moved corresponds
    have explicit := corresponds.mono fun _ _ => movedBy_of_behind
    rwa [length] at explicit
  constructor
  · intro answer gives
    obtain ⟨moved, reads, corresponds⟩ := (reads_iff_gives.mpr gives).exists_moved behind
    exact ⟨moved, reads.gives, weaker corresponds⟩
  · intro moved gives
    obtain ⟨answer, reads, corresponds⟩ := (reads_iff_gives.mpr gives).exists_original behind
    exact ⟨answer, reads.gives, weaker corresponds⟩

/-- Two digits behind a letter of two bytes. -/
theorem parse_independent_of_text_in_front_accent :
    let source : Source := .ofList ['é', '4', '2', 'λ'] 0
    let digits : Grammar (fun _ : Unit => Unit) (List Char) := digit.many1
    1 ≤ source.chars.length ∧
      ∃ moved, Gives (Except ParseError (Parsed (List Char))) Rules.empty digits
          ((Input.ofSource source).skip 1) (.ok moved) ∧
        moved.value = ['4', '2'] ∧ moved.matched = "42" ∧ moved.next.rest = ['λ'] ∧
        moved.start.pos = 1 ∧ moved.start.offset = 2 ∧ moved.next.pos = 3 ∧ moved.next.offset = 4 := by
  intro source digits
  have inside : 1 ≤ source.chars.length := by decide
  have found : ∃ parsed, Reads Rules.empty digits (.ofList ['4', '2', 'λ'] 1) (.ok parsed) ∧
      parsed.value = ['4', '2'] ∧ parsed.matched = "42" ∧ parsed.next.rest = ['λ'] ∧
      parsed.start.pos = 0 ∧ parsed.start.offset = 0 ∧ parsed.next.pos = 2 ∧ parsed.next.offset = 2 :=
    ⟨_, ⟨4, rfl⟩, rfl, rfl, rfl, rfl, rfl, rfl, rfl⟩
  obtain ⟨parsed, reads, value, text, rest, start, startOffset, next, nextOffset⟩ := found
  obtain ⟨moved, gives, alike⟩ :=
    (parse_independent_of_text_in_front (σ := Except ParseError (Parsed (List Char))) Rules.empty digits source
      inside 1).1 _ reads.gives
  cases alike with
  | @ok _ moved corresponds =>
    refine ⟨inside, moved, gives, corresponds.value.trans value, corresponds.matched.trans text,
      corresponds.rest.trans rest, ?_, ?_, ?_, ?_⟩
    · rw [corresponds.start_pos, start]
    · rw [corresponds.start_offset, startOffset]
      rfl
    · rw [corresponds.next_pos, next]
    · rw [corresponds.next_offset, nextOffset]
      rfl

end Suffixes

end Grammar

end Deferred
