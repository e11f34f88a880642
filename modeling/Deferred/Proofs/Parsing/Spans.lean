import Deferred.Proofs.Parsing.Outcomes
import Deferred.Proofs.Parsing.Takes

/-! Where the text of a reading lies. What was read ends behind the place where the reading started, in the
same source, and its text is what stands between the two; the text of a whole is made of the texts of those of
its parts that were kept, so what was given back leaves no gap. An error points to a place in between. -/

namespace Deferred

@[simp] theorem takeBytes?_append (left right : List Char) :
    takeBytes? (left ++ right) (utf8Length left) = some left := by
  induction left with
  | nil => rw [List.nil_append, utf8Length_nil, takeBytes?]
  | cons c left ih =>
    obtain ⟨more, size⟩ := Nat.exists_eq_succ_of_ne_zero (Nat.ne_of_gt c.utf8Size_pos)
    have counted : utf8Length (c :: left) = more + utf8Length left + 1 := by
      rw [utf8Length_cons, size]
      omega
    have fits : c.utf8Size ≤ more + utf8Length left + 1 := by omega
    have left_eq : more + utf8Length left + 1 - c.utf8Size = utf8Length left := by omega
    rw [counted, List.cons_append, takeBytes?, if_pos fits, left_eq, ih, Option.map_some]

namespace Input.Before

variable {first second third : Input}

theorem inside (before : first.Before second) : second.pos ≤ first.source.chars.length :=
  before.source ▸ second.pos_le

theorem eq_skip (before : first.Before second) : second = first.skip (second.pos - first.pos) := by
  have left := congrArg List.length (first.rest_skip (second.pos - first.pos))
  have skipped := first.before_skip (second.pos - first.pos)
  rw [List.length_drop, rest_length, rest_length, remaining, remaining, skipped.source,
    first.source.size_eq] at left
  have := before.inside
  have := skipped.inside
  have := before.pos
  exact ext_pos (before.source.trans skipped.source.symm) (by omega)

theorem rest_eq (before : first.Before second) : second.rest = first.rest.drop (second.pos - first.pos) := by
  rw [← first.rest_skip, ← before.eq_skip]

/-- Whatever the characters take in bytes, the text between two places is made of those in between. -/
theorem textTo_eq (before : first.Before second) :
    first.textTo second = first.rest.take (second.pos - first.pos) := by
  have further := before.pos
  have parts : second.source.chars.take second.pos =
      first.source.chars.take first.pos ++ first.rest.take (second.pos - first.pos) := by
    rw [before.source, first.rest_eq, ← List.take_add, Nat.add_sub_cancel' further]
  have offset : second.offset = first.offset + utf8Length (first.rest.take (second.pos - first.pos)) := by
    rw [second.offset_eq, parts, utf8Length_append, ← first.offset_eq]
  have taken := takeBytes?_append (first.rest.take (second.pos - first.pos))
    (first.rest.drop (second.pos - first.pos))
  rw [List.take_append_drop] at taken
  rw [textTo, if_neg (by omega), offset, Nat.add_sub_cancel_left, taken, Option.getD_some]

theorem textTo_append (before : first.Before second) (before' : second.Before third) :
    first.textTo third = first.textTo second ++ second.textTo third := by
  have further := before.pos
  have further' := before'.pos
  rw [(before.trans before').textTo_eq, before.textTo_eq, before'.textTo_eq, before.rest_eq,
    ← List.take_add]
  congr 1
  omega

end Input.Before

namespace ParseError

def Within (input : Input) (error : ParseError) : Prop :=
  ∀ leaf ∈ error.leaves, input.pos ≤ leaf.position ∧ leaf.position ≤ input.source.chars.length

theorem within_mismatch (expected found : String) (input : Input) :
    (mismatch expected found input.pos).Within input := by
  intro leaf member
  obtain rfl := List.mem_singleton.mp member
  exact ⟨Nat.le_refl _, input.pos_le⟩

theorem within_undefined (input : Input) : (undefined input.pos).Within input := by
  intro leaf member
  obtain rfl := List.mem_singleton.mp member
  exact ⟨Nat.le_refl _, input.pos_le⟩

theorem Within.alternatives {input : Input} {first second : ParseError} (within : first.Within input)
    (within' : second.Within input) : (alternatives first second).Within input :=
  fun leaf member => (List.mem_append.mp member).elim (within leaf) (within' leaf)

theorem Within.of_before {first second : Input} {error : ParseError} (within : error.Within second)
    (before : first.Before second) : error.Within first := by
  intro leaf member
  obtain ⟨from_, inside⟩ := within leaf member
  exact ⟨before.pos.trans from_, before.source ▸ inside⟩

end ParseError

/-- What may come of a reading that starts at a place. A success starts right there and ends some characters
further on in the same source, and its text is what stands in between. A failure points to places from there
on. -/
def Input.Allows {α : Type} (input : Input) : Except ParseError (Parsed α) → Prop
  | .ok parsed =>
    parsed.start = input ∧ (∃ count, parsed.next = input.skip count) ∧
      parsed.next.source = input.source ∧ input.pos ≤ parsed.next.pos ∧
      parsed.next.pos ≤ input.source.chars.length ∧
      parsed.matched = String.ofList ((input.source.chars.take parsed.next.pos).drop input.pos)
  | .error error => error.Within input

theorem Parsed.From.allows {α : Type} {parsed : Parsed α} {input : Input} (from_ : parsed.From input) :
    input.Allows (.ok parsed) := by
  have before := from_.next
  refine ⟨from_.start, ⟨_, before.eq_skip⟩, before.source, before.pos, before.inside, ?_⟩
  rw [matched, from_.start, before.textTo_eq, input.rest_eq, List.drop_take]

namespace Grammar

open ParseError (within_mismatch within_undefined)

variable {ρ : Type} {Value : ρ → Type} {rules : Rules Value} {α β γ : Type} {input next : Input}

section Failures

def Careful (read : Input → Answer α) : Prop :=
  ∀ input error, read input = some (.error error) → error.Within input

theorem within_readChars {text : List Char} {error : ParseError}
    (failed : input.readChars text = .error error) : error.Within input := by
  induction text generalizing input with
  | nil => cases failed
  | cons expected rest ih =>
    rw [Input.readChars] at failed
    split at failed
    next moved =>
      split at failed
      next => exact (ih failed).of_before (.advance moved)
      next => exact Except.error.inj failed ▸ within_mismatch _ _ _
    next => exact Except.error.inj failed ▸ within_mismatch _ _ _

theorem within_readItems {item : Input → Answer α} (forward : Forward item) (careful : Careful item)
    {fuel : Nat} {items : Items α} (found : readItems item fuel input = some items) :
    ∀ error ∈ items.failure, error.Within input := by
  induction fuel generalizing input items with
  | zero => exact absurd found (by simp [readItems])
  | succ fuel ih =>
    rw [readItems] at found
    split at found
    next => exact absurd found (by simp)
    next error failed =>
      obtain rfl := Option.some.inj found
      rintro _ ⟨⟩
      exact careful input error failed
    next parsed first =>
      split at found
      next =>
        obtain ⟨rest, behind, rfl⟩ := Option.map_eq_some_iff.mp found
        exact fun error ended => (ih behind error ended).of_before (forward input parsed first).next
      next =>
        obtain rfl := Option.some.inj found
        exact fun error ended => absurd ended (by simp)

theorem careful_readWith {read : (rule : ρ) → Input → Answer (Value rule)}
    (forward : ∀ rule, Forward (read rule)) (careful : ∀ rule, Careful (read rule)) {fuel : Nat}
    (grammar : Grammar Value α) : Careful (grammar.readWith read fuel) := by
  induction grammar with
  | pure => exact fun input error failed => absurd failed (by simp [readWith])
  | fail expected =>
    intro input error failed
    obtain rfl := Except.error.inj (Option.some.inj failed)
    exact within_mismatch _ _ _
  | sat accepts expected =>
    intro input error failed
    have failed := Option.some.inj failed
    rw [Input.readSat] at failed
    split at failed
    next =>
      split at failed
      next => cases failed
      next => exact Except.error.inj failed ▸ within_mismatch _ _ _
    next => exact Except.error.inj failed ▸ within_mismatch _ _ _
  | literal text =>
    intro input error failed
    have failed := Option.some.inj failed
    rw [Input.readLiteral] at failed
    cases read : input.readChars text with
    | ok => exact absurd failed (by simp [read, Except.map])
    | error =>
      rw [read] at failed
      exact Except.error.inj failed ▸ within_readChars read
  | eof =>
    intro input error failed
    have failed := Option.some.inj failed
    rw [Input.readEof] at failed
    split at failed
    next => cases failed
    next => exact Except.error.inj failed ▸ within_mismatch _ _ _
  | bind first next ihFirst ihNext =>
    intro input error failed
    rw [readWith] at failed
    split at failed
    next => exact absurd failed (by simp)
    next error' head =>
      obtain rfl := Except.error.inj (Option.some.inj failed)
      exact ihFirst input _ head
    next left head =>
      obtain ⟨outcome, tail, same⟩ := Option.map_eq_some_iff.mp failed
      cases outcome with
      | ok => cases same
      | error =>
        obtain rfl := Except.error.inj same
        have before := (forward_readWith forward first input left head).next
        exact (ihNext left.value left.next _ tail).of_before before
  | map f grammar ih =>
    intro input error failed
    obtain ⟨outcome, inner, same⟩ := Option.map_eq_some_iff.mp failed
    cases outcome with
    | ok => cases same
    | error => exact Except.error.inj same ▸ ih input _ inner
  | or first second ihFirst ihSecond =>
    intro input error failed
    rw [readWith] at failed
    split at failed
    next => exact absurd failed (by simp)
    next error' head =>
      obtain ⟨outcome, tail, same⟩ := Option.map_eq_some_iff.mp failed
      cases outcome with
      | ok => cases same
      | error => exact Except.error.inj same ▸ (ihFirst input _ head).alternatives (ihSecond input _ tail)
    next => exact absurd failed (by simp)
  | refine grammar judge ih =>
    intro input error failed
    obtain ⟨outcome, inner, same⟩ := Option.map_eq_some_iff.mp failed
    cases outcome with
    | error => exact Except.error.inj same ▸ ih input _ inner
    | ok parsed =>
      have start := (forward_readWith forward grammar input parsed inner).start
      simp only [Except.bind, Parsed.judged] at same
      split at same
      next => cases same
      next =>
        obtain rfl := Except.error.inj same
        rw [Parsed.pos, start]
        exact within_mismatch _ _ _
  | rep item least ih =>
    intro input error failed
    obtain ⟨items, inner, same⟩ := Option.map_eq_some_iff.mp failed
    rw [Items.atLeast] at same
    split at same
    next error' ended =>
      split at same
      next => cases same
      next =>
        exact Except.error.inj same ▸ within_readItems (forward_readWith forward item) ih inner error' ended
    next => cases same
  | chain first more combine fallback ihFirst ihMore =>
    intro input error failed
    rw [readWith] at failed
    split at failed
    next => exact absurd failed (by simp)
    next error' head =>
      split at failed
      next => exact absurd failed (by simp)
      next => exact Except.error.inj (Option.some.inj failed) ▸ ihFirst input _ head
    next =>
      obtain ⟨_, _, same⟩ := Option.map_eq_some_iff.mp failed
      cases same
  | lazy make ih => exact ih ()
  | ref rule => exact careful rule

theorem careful_readRule (rules : Rules Value) (fuel : Nat) (rule : ρ) :
    Careful (readRule rules fuel rule) := by
  induction fuel generalizing rule with
  | zero => exact fun input error failed => absurd failed (by simp [readRule])
  | succ fuel ih =>
    intro input error failed
    rw [readRule] at failed
    split at failed
    next body _ => exact careful_readWith (forward_readRule rules fuel) ih body input error failed
    next =>
      obtain rfl := Except.error.inj (Option.some.inj failed)
      exact within_undefined input

theorem Reads.allows {grammar : Grammar Value α} {answer : Except ParseError (Parsed α)}
    (reads : Reads rules grammar input answer) : input.Allows answer := by
  cases answer with
  | ok parsed => exact reads.from.allows
  | error error =>
    obtain ⟨fuel, failed⟩ := reads
    exact careful_readWith (forward_readRule rules fuel) (careful_readRule rules fuel) grammar input error failed

end Failures

section Pieces

inductive Row (piece : Input → γ → Input → Prop) : Input → List γ → Input → Prop
  | nil {place} : Row piece place [] place
  | cons {place middle last first rest} (read : piece place first middle) (row : Row piece middle rest last) :
      Row piece place (first :: rest) last

def Piece (rules : Rules Value) (grammar : Grammar Value α) (input : Input) (parsed : Parsed α)
    (next : Input) : Prop :=
  Reads rules grammar input (.ok parsed) ∧ parsed.next = next

def Linked (rules : Rules Value) (first : Grammar Value α) (second : Grammar Value β) (input : Input)
    (pair : Parsed α × Parsed β) (next : Input) : Prop :=
  ∃ middle, Piece rules first input pair.1 middle ∧ Piece rules second middle pair.2 next

def Splits (rules : Rules Value) (first : Grammar Value α) (second : α → Grammar Value β)
    (combine : α → β → γ) (input : Input) (whole : Parsed γ) : Prop :=
  ∃ left right middle, Piece rules first input left middle ∧
    Piece rules (second left.value) middle right whole.next ∧
    whole.value = combine left.value right.value ∧ whole.matched = left.matched ++ right.matched

def Repeats (rules : Rules Value) (item : Grammar Value α) (input : Input) (whole : Parsed (List α)) :
    Prop :=
  ∃ pieces, Row (Piece rules item) input pieces whole.next ∧
    whole.value = pieces.map Parsed.value ∧ whole.matched = String.join (pieces.map Parsed.matched)

def Chains (rules : Rules Value) (item : Grammar Value α) (link : Grammar Value β)
    (combine : α → List (β × α) → γ) (input : Input) (whole : Parsed γ) : Prop :=
  ∃ first middle pairs, Piece rules item input first middle ∧
    Row (Linked rules link item) middle pairs whole.next ∧
    whole.value = combine first.value (pairs.map fun pair => (pair.1.value, pair.2.value)) ∧
    whole.matched = first.matched ++ String.join (pairs.map fun pair => pair.1.matched ++ pair.2.matched)

def Spells (input next : Input) (text : String) : Prop :=
  input.Before next ∧ text = String.ofList (input.textTo next)

theorem spells_nil (input : Input) : Spells input input "" := by
  refine ⟨.refl input, ?_⟩
  rw [(Input.Before.refl input).textTo_eq, Nat.sub_self, List.take_zero]

theorem Spells.append {middle : Input} {left right : String} (spells : Spells input middle left)
    (spells' : Spells middle next right) : Spells input next (left ++ right) := by
  obtain ⟨before, rfl⟩ := spells
  obtain ⟨before', rfl⟩ := spells'
  exact ⟨before.trans before', by rw [before.textTo_append before', String.ofList_append]⟩

theorem Piece.spells {grammar : Grammar Value α} {parsed : Parsed α}
    (piece : Piece rules grammar input parsed next) : Spells input next parsed.matched := by
  obtain ⟨reads, rfl⟩ := piece
  exact ⟨reads.from.next, by rw [Parsed.matched, reads.from.start]⟩

theorem Linked.spells {first : Grammar Value α} {second : Grammar Value β} {pair : Parsed α × Parsed β}
    (linked : Linked rules first second input pair next) :
    Spells input next (pair.1.matched ++ pair.2.matched) := by
  obtain ⟨middle, left, right⟩ := linked
  exact left.spells.append right.spells

theorem Row.spells {piece : Input → γ → Input → Prop} {text : γ → String} {pieces : List γ}
    (spells : ∀ input content next, piece input content next → Spells input next (text content))
    (row : Row piece input pieces next) : Spells input next (String.join (pieces.map text)) := by
  induction row with
  | nil => exact spells_nil _
  | cons read _ ih =>
    rw [List.map_cons, String.join_cons]
    exact (spells _ _ _ read).append ih

theorem Reads.matched_eq {grammar : Grammar Value α} {whole : Parsed α} {text : String}
    (reads : Reads rules grammar input (.ok whole)) (spells : Spells input whole.next text) :
    whole.matched = text := by
  rw [spells.2, Parsed.matched, reads.from.start]

theorem Collects.row {reads : Input → Except ParseError (Parsed α) → Prop} {piece : Input → γ → Input → Prop}
    {value : γ → α} (splits : ∀ input parsed, reads input (.ok parsed) →
      ∃ content, piece input content parsed.next ∧ value content = parsed.value)
    {items : Items α} (collects : Collects reads input items) :
    ∃ pieces, Row piece input pieces items.next ∧ pieces.map value = items.values := by
  induction collects with
  | failed _ => exact ⟨[], .nil, rfl⟩
  | stopped read _ =>
    obtain ⟨content, first, same⟩ := splits _ _ read
    exact ⟨[content], .cons first .nil, by rw [List.map_singleton, same]⟩
  | more read _ _ ih =>
    obtain ⟨content, first, same⟩ := splits _ _ read
    obtain ⟨pieces, row, values⟩ := ih
    exact ⟨content :: pieces, .cons first row, by rw [List.map_cons, same, values]; rfl⟩

theorem Reads.splits_bind {first : Grammar Value α} {second : α → Grammar Value β} {whole : Parsed β}
    (reads : Reads rules (first.bind second) input (.ok whole)) :
    Splits rules first second (fun _ right => right) input whole := by
  rcases reads_bind.mp reads with ⟨_, _, same⟩ | ⟨left, inner, head, tail, same⟩
  · cases same
  · cases inner with
    | error => cases same
    | ok right =>
      obtain rfl := Except.ok.inj same
      have left' : Piece rules first input left left.next := ⟨head, rfl⟩
      have right' : Piece rules (second left.value) left.next right right.next := ⟨tail, rfl⟩
      exact ⟨left, right, left.next, left', right', rfl,
        reads.matched_eq (left'.spells.append right'.spells)⟩

theorem Piece.of_map {f : α → β} {grammar : Grammar Value α} {parsed : Parsed β}
    (piece : Piece rules (grammar.map f) input parsed next) :
    ∃ inner, Piece rules grammar input inner next ∧ parsed.value = f inner.value ∧
      parsed.matched = inner.matched := by
  obtain ⟨reads, rfl⟩ := piece
  obtain ⟨outcome, read, same⟩ := reads_map.mp reads
  cases outcome with
  | error => cases same
  | ok inner =>
    obtain rfl := Except.ok.inj same
    exact ⟨inner, ⟨read, rfl⟩, rfl, rfl⟩

theorem Reads.splits_bind_map {δ : Type} {first : Grammar Value α} {second : Grammar Value β}
    {combine : α → β → δ} {whole : Parsed δ}
    (reads : Reads rules (first.bind fun left => second.map (combine left)) input (.ok whole)) :
    Splits rules first (fun _ => second) combine input whole := by
  obtain ⟨left, right, middle, head, tail, value, text⟩ := reads.splits_bind
  obtain ⟨inner, tail', value', text'⟩ := tail.of_map
  exact ⟨left, inner, middle, head, tail', value.trans value', by rw [text, text']⟩

theorem Splits.linked {first : Grammar Value α} {second : Grammar Value β} {combine : α → β → γ}
    {whole : Parsed γ} (splits : Splits rules first (fun _ => second) combine input whole) :
    ∃ pair, Linked rules first second input pair whole.next ∧
      combine pair.1.value pair.2.value = whole.value := by
  obtain ⟨left, right, middle, head, tail, value, -⟩ := splits
  exact ⟨(left, right), ⟨middle, head, tail⟩, value.symm⟩

theorem Reads.repeats {item : Grammar Value α} {least : Nat} {whole : Parsed (List α)}
    (reads : Reads rules (item.rep least) input (.ok whole)) : Repeats rules item input whole := by
  obtain ⟨items, collects, same⟩ := reads_rep.mp reads
  have gathered : ∃ pieces, Row (Piece rules item) input pieces items.next ∧
      pieces.map Parsed.value = items.values :=
    collects.row fun _ parsed read => ⟨parsed, ⟨read, rfl⟩, rfl⟩
  obtain ⟨pieces, row, values⟩ := gathered
  obtain rfl := Items.atLeast_ok same.symm
  exact ⟨pieces, row, values.symm, reads.matched_eq (row.spells fun _ _ _ => Piece.spells)⟩

theorem Reads.chains {δ ε : Type} {item : Grammar Value α} {more : Grammar Value δ}
    {combine : α → List δ → ε} {fallback : Option ε} {whole : Parsed ε} (link : Grammar Value β)
    (join : β → α → δ) (splits : ∀ input parsed, Reads rules more input (.ok parsed) →
      Splits rules link (fun _ => item) join input parsed)
    (reads : Reads rules (.chain item more combine fallback) input (.ok whole)) :
    Chains rules item link (fun first pairs => combine first (pairs.map fun pair => join pair.1 pair.2)) input
        whole ∨
      ∃ value, fallback = some value ∧ whole = .empty value input := by
  rcases reads_chain.mp reads with ⟨error, _, same⟩ | ⟨first, items, head, collects, same⟩
  · cases fallback with
    | none => cases same
    | some value => exact .inr ⟨value, rfl, Except.ok.inj same⟩
  · obtain rfl := Except.ok.inj same
    have gathered : ∃ pairs, Row (Linked rules link item) first.next pairs items.next ∧
        pairs.map (fun pair => join pair.1.value pair.2.value) = items.values :=
      collects.row fun input parsed read => (splits input parsed read).linked
    obtain ⟨pairs, row, values⟩ := gathered
    have first' : Piece rules item input first first.next := ⟨head, rfl⟩
    refine .inl ⟨first, first.next, pairs, first', row, ?_, ?_⟩
    · simp only [List.map_map, ← values]
      rfl
    · exact reads.matched_eq (first'.spells.append (row.spells fun _ _ _ => Linked.spells))

theorem Reads.chains_operator {item : Grammar Value α} {operator : Grammar Value (α → α → α)}
    {combine : α → List ((α → α → α) × α) → α} {whole : Parsed α}
    (reads : Reads rules (.chain item (operator.seq item) combine none) input (.ok whole)) :
    Chains rules item operator combine input whole := by
  rcases reads.chains operator Prod.mk (fun _ _ read => read.splits_bind_map) with
    chains | ⟨_, none, _⟩
  · simpa only [Prod.mk.eta, List.map_id'] using chains
  · cases none

/-- Every reading stays inside its source and joins its pieces. Whatever comes of it on a loop, a success starts
where the reading started and ends some characters further on in the same source, and its text is what stands
in between; a failure points to places from the start on. Of sequences, repetitions and chains the text is made
of the texts of the parts whose values were kept, in their order. -/
theorem parse_stays_inside (rules : Rules Value) :
    (∀ {α σ : Type} [Storable (Except ParseError (Parsed α)) σ] (grammar : Grammar Value α) (input : Input)
      (answer : Except ParseError (Parsed α)) (loop : Loop σ), loop.Vacant →
        (Reads rules grammar input answer ↔ ∃ bound ran after,
          loop.waitFor bound (parse rules grammar input) = some ⟨some answer, ran, after⟩)) ∧
    (∀ {α : Type} (grammar : Grammar Value α) (input : Input) (answer : Except ParseError (Parsed α)),
      Reads rules grammar input answer → input.Allows answer) ∧
    (∀ {α β : Type} (first : Grammar Value α) (second : α → Grammar Value β) (input : Input)
      (whole : Parsed β), Reads rules (first.bind second) input (.ok whole) →
        Splits rules first second (fun _ right => right) input whole) ∧
    (∀ {α β : Type} (first : Grammar Value α) (second : Grammar Value β) (input : Input),
      (∀ whole, Reads rules (first.seq second) input (.ok whole) →
        Splits rules first (fun _ => second) Prod.mk input whole) ∧
      (∀ whole, Reads rules (first.seqLeft second) input (.ok whole) →
        Splits rules first (fun _ => second) (fun left _ => left) input whole) ∧
      (∀ whole, Reads rules (first.seqRight second) input (.ok whole) →
        Splits rules first (fun _ => second) (fun _ right => right) input whole)) ∧
    (∀ {α : Type} (item : Grammar Value α) (least : Nat) (input : Input) (whole : Parsed (List α)),
      Reads rules (item.rep least) input (.ok whole) → Repeats rules item input whole) ∧
    (∀ {α β : Type} (item : Grammar Value α) (separator : Grammar Value β) (least : Nat) (input : Input)
      (whole : Parsed (List α)), Reads rules (item.sepByMin separator least) input (.ok whole) →
        Chains rules item separator (fun first pairs => first :: pairs.map Prod.snd) input whole ∨
          least = 0 ∧ whole = .empty [] input) ∧
    ∀ {α : Type} (item : Grammar Value α) (operator : Grammar Value (α → α → α)) (input : Input)
      (whole : Parsed α),
      (Reads rules (item.chainLeft operator) input (.ok whole) →
        Chains rules item operator (fun first pairs => pairs.foldl (fun left pair => pair.1 left pair.2) first)
          input whole) ∧
      (Reads rules (item.chainRight operator) input (.ok whole) →
        Chains rules item operator foldPairsRight input whole) := by
  refine ⟨fun grammar input answer loop vacant => reads_iff_waitFor vacant,
    fun grammar input answer reads => reads.allows, fun first second input whole reads => reads.splits_bind,
    fun first second input => ⟨fun whole reads => reads.splits_bind_map,
      fun whole reads => reads.splits_bind_map, fun whole reads => reads.splits_bind⟩,
    fun item least input whole reads => reads.repeats, ?_, ?_⟩
  · intro α β item separator least input whole reads
    rcases reads.chains separator (fun _ right => right) (fun _ _ read => read.splits_bind) with
      chains | ⟨value, fallback, same⟩
    · exact .inl chains
    · split at fallback
      next none => exact .inr ⟨none, Option.some.inj fallback ▸ same⟩
      next => cases fallback
  · exact fun item operator input whole => ⟨Reads.chains_operator, Reads.chains_operator⟩

/-- Two letters of two bytes each. The comma behind them is given back. -/
theorem parse_stays_inside_dangling :
    let letter : Grammar (fun _ : Unit => Unit) Char := .sat (· != ',') "letter"
    let comma : Grammar (fun _ : Unit => Unit) Char := .sat (· == ',') "comma"
    let separated := letter.sepBy comma
    let input : Input := .ofList ['(', 'é', ',', 'λ', ','] 0
    let loop : Loop (Except ParseError (Parsed (List Char))) := { config := { maxStreak := 0 } }
    ∃ whole, Reads Rules.empty separated input.tail (.ok whole) ∧
      (∃ bound ran after, loop.waitFor bound (parse Rules.empty separated input.tail) =
        some ⟨some (.ok whole), ran, after⟩) ∧
      input.tail.Allows (.ok whole) ∧ whole.next = input.tail.skip 3 ∧ whole.next.offset = 6 ∧
      ∃ first middle pairs, Piece Rules.empty letter input.tail first middle ∧
        Row (Linked Rules.empty comma letter) middle pairs whole.next ∧
        whole.value = first.value :: pairs.map (·.2.value) ∧ whole.value = ['é', 'λ'] ∧
        whole.matched = first.matched ++ String.join (pairs.map fun pair => pair.1.matched ++ pair.2.matched) ∧
        whole.matched = "é,λ" := by
  intro letter comma separated input loop
  have found : ∃ whole, Reads Rules.empty separated input.tail (.ok whole) ∧
      whole.next = input.tail.skip 3 ∧ whole.next.offset = 6 ∧ whole.value = ['é', 'λ'] ∧
      whole.matched = "é,λ" := ⟨_, ⟨9, rfl⟩, rfl, rfl, rfl, rfl⟩
  obtain ⟨whole, reads, next, offset, value, text⟩ := found
  have empty : loop.Vacant := ⟨rfl, rfl, rfl⟩
  obtain ⟨waits, inside, -, -, -, separates, -⟩ :=
    parse_stays_inside (Rules.empty : Rules fun _ : Unit => Unit)
  refine ⟨whole, reads, (waits _ _ _ loop empty).mp reads, inside _ _ _ reads, next, offset, ?_⟩
  rcases separates letter comma 0 _ whole reads with ⟨first, middle, pairs, head, row, value', text'⟩ | ⟨-, none⟩
  · refine ⟨first, middle, pairs, head, row, ?_, value, text', text⟩
    simp [value']
  · rw [none] at value
    cases value

end Pieces

end Grammar

end Deferred
