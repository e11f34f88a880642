import Deferred.Proofs.Parsing.Spans

/-! String literals and the texts they stand for. To write a text as a literal, a backslash is put in front of each of
its quotes and a quote at both ends; a backslash of the text is written as it is. Reading takes a backslash and a quote
together wherever it can, before the closing quote is looked for. So what is read back is the text, unless it ends in a
backslash: that one would take the closing quote with it, and no literal stands for such a text. -/

namespace Deferred

namespace Input

def Spans (input : Input) (text : List Char) (next : Input) : Prop :=
  text <+: input.rest ∧ next = input.skip text.length

variable {input next : Input}

theorem spans_nil_iff : input.Spans [] next ↔ next = input := by
  simp [Spans, skip]

theorem spans_cons_iff {c : Char} {text : List Char} :
    input.Spans (c :: text) next ↔ input.head = some c ∧ input.tail.Spans text next := by
  constructor
  · intro spans
    obtain ⟨⟨rest, stands⟩, rfl⟩ := spans
    have left : input.tail.rest = text ++ rest := by rw [rest_tail, ← stands]; rfl
    exact ⟨by rw [head, ← stands]; rfl, ⟨rest, left.symm⟩, rfl⟩
  · intro given
    obtain ⟨stands, inside, rfl⟩ := given
    exact ⟨rest_eq_of_head stands ▸ List.cons_prefix_cons.mpr ⟨rfl, inside⟩, rfl⟩

theorem spans_append_iff {left right : List Char} :
    input.Spans (left ++ right) next ↔ ∃ middle, input.Spans left middle ∧ middle.Spans right next := by
  induction left generalizing input with
  | nil => simp [spans_nil_iff]
  | cons c left ih => simp only [List.cons_append, spans_cons_iff, ih, and_assoc, exists_and_left]

theorem Spans.rest {text : List Char} (spans : input.Spans text next) : input.rest = text ++ next.rest := by
  obtain ⟨⟨rest, stands⟩, rfl⟩ := spans
  rw [rest_skip, ← stands, List.drop_left]

theorem Spans.pos {text : List Char} (spans : input.Spans text next) : next.pos = input.pos + text.length := by
  obtain ⟨inside, rfl⟩ := spans
  exact pos_skip inside.length_le

theorem spans_of_rest_eq {text rest : List Char} (left : input.rest = text ++ rest) :
    input.Spans text (input.skip text.length) ∧ (input.skip text.length).rest = rest :=
  ⟨⟨⟨rest, left.symm⟩, rfl⟩, by rw [rest_skip, left, List.drop_left]⟩

theorem Spans.spells {text : List Char} (spans : input.Spans text next) :
    Grammar.Spells input next (String.ofList text) := by
  have before : input.Before next := spans.2 ▸ input.before_skip _
  refine ⟨before, ?_⟩
  rw [before.textTo_eq, spans.pos, Nat.add_sub_cancel_left, spans.rest, List.take_left]

theorem Before.exists_spans (before : input.Before next) : ∃ text, input.Spans text next := by
  have within : next.pos - input.pos ≤ input.rest.length := by
    have inside := before.inside
    rw [input.rest_length, remaining, input.source.size_eq]
    omega
  refine ⟨input.rest.take (next.pos - input.pos), List.take_prefix .., ?_⟩
  rw [List.length_take_of_le within]
  exact before.eq_skip

theorem spans_skipWhile (accepts : Char → Bool) (input : Input) :
    input.Spans (input.rest.takeWhile accepts) (input.skipWhile accepts) :=
  ⟨List.takeWhile_prefix accepts, rfl⟩

theorem Spans.skipWhile_eq {accepts : Char → Bool} {run : List Char} (spans : input.Spans run next)
    (each : run.all accepts = true) (stops : ∀ c, next.head = some c → accepts c = false) :
    input.skipWhile accepts = next := by
  have whole := (Grammar.takeWhile_append_of_stops (List.all_eq_true.mp each) stops).1
  rw [skipWhile, spans.rest, whole]
  exact spans.2.symm

theorem head_skipWhile {accepts : Char → Bool} {c : Char} (stands : (input.skipWhile accepts).head = some c) :
    accepts c = false := by
  rw [head, rest_skipWhile] at stands
  have other := List.head?_dropWhile_not accepts input.rest
  simpa [stands] using other

end Input

namespace Grammar

variable {ρ : Type} {Value : ρ → Type} {rules : Rules Value} {σ : Type} {input next : Input}

section Quotes

def escapeQuote (c : Char) : List Char :=
  if c = '\'' then ['\\', '\''] else [c]

def quote (text : List Char) : List Char :=
  ['\''] ++ text.flatMap escapeQuote ++ ['\'']

/-- A body stands between quotes, with nothing but white space around them. -/
def Encloses (text body : List Char) : Prop :=
  ∃ front behind, front.all Text.isWhite ∧ behind.all Text.isWhite ∧
    text = front ++ (['\''] ++ body ++ ['\'']) ++ behind

theorem Encloses.trimmed {text body : List Char} (encloses : Encloses text body) :
    Text.trimmed text = ['\''] ++ body ++ ['\''] := by
  obtain ⟨front, behind, white, white', rfl⟩ := encloses
  have left : (front ++ (['\''] ++ body ++ ['\''] ++ behind)).dropWhile Text.isWhite =
      ['\''] ++ body ++ ['\''] ++ behind :=
    (takeWhile_append_of_stops (List.all_eq_true.mp white) fun c first => by
      obtain rfl := Option.some.inj first
      decide).2
  have right : (behind.reverse ++ (['\''] ++ body ++ ['\'']).reverse).dropWhile Text.isWhite =
      (['\''] ++ body ++ ['\'']).reverse :=
    (takeWhile_append_of_stops (by simpa using white') fun c first => by
      simp only [List.reverse_append, List.reverse_singleton, List.singleton_append, List.head?_cons] at first
      obtain rfl := Option.some.inj first
      decide).2
  rw [Text.trimmed, List.append_assoc, left, List.reverse_append, right, List.reverse_reverse]

theorem Encloses.unique {text body body' : List Char} (encloses : Encloses text body)
    (encloses' : Encloses text body') : body = body' := by
  have same := encloses.trimmed.symm.trans encloses'.trimmed
  exact List.append_cancel_left (List.append_cancel_right same)

theorem exists_escapeQuote_eq_cons (c : Char) : ∃ first rest, escapeQuote c = first :: rest ∧ first ≠ '\'' := by
  by_cases isQuote : c = '\''
  case pos => exact ⟨'\\', ['\''], if_pos isQuote, by decide⟩
  case neg => exact ⟨c, [], if_neg isQuote, isQuote⟩

end Quotes

section Body

theorem takes_char {c d : Char} : Takes rules (char c) input d next ↔ d = c ∧ input.Spans [c] next := by
  rw [char, takes_sat, Input.spans_cons_iff, Input.spans_nil_iff]
  constructor
  · intro given
    obtain ⟨stands, same, rfl⟩ := given
    exact ⟨eq_of_beq same, eq_of_beq same ▸ stands, rfl⟩
  · intro given
    obtain ⟨rfl, stands, rfl⟩ := given
    exact ⟨stands, beq_self_eq_true d, rfl⟩

def quotedChar : Grammar Value Char :=
  ((literal ['\\', '\'']).giving '\'').or (sat (· != '\'') "non quote")

theorem escaped_iff : ['\\', '\''] <+: input.rest ↔ input.head = some '\\' ∧ input.tail.head = some '\'' := by
  have spans := @Input.spans_cons_iff input (input.skip 2) '\\' ['\'']
  simpa [Input.Spans, Input.singleton_prefix_rest_iff, Input.skip] using spans

/-- Each character is read off the way it is written. A backslash is one only if no quote is next. -/
theorem takes_quotedChar {c : Char} : Takes rules quotedChar input c next ↔
    input.Spans (escapeQuote c) next ∧ (c = '\\' → next.head ≠ some '\'') := by
  simp only [quotedChar, giving, takes_or, takes_map, fails_map, takes_literal, fails_literal, takes_sat,
    bne_iff_ne]
  by_cases isQuote : c = '\''
  case pos =>
    subst isQuote
    simp [escapeQuote, Input.Spans]
  case neg =>
    rw [escapeQuote, if_neg isQuote, Input.spans_cons_iff, Input.spans_nil_iff, escaped_iff]
    constructor
    · intro given
      rcases given with ⟨_, _, same⟩ | ⟨plain, stands, _, rfl⟩
      · exact absurd same isQuote
      · exact ⟨⟨stands, rfl⟩, fun backslash closed => plain ⟨backslash ▸ stands, closed⟩⟩
    · intro given
      obtain ⟨⟨stands, rfl⟩, plain⟩ := given
      refine .inr ⟨fun escaped => ?_, stands, isQuote, rfl⟩
      exact plain (Option.some.inj (stands.symm.trans escaped.1)) escaped.2

theorem fails_quotedChar (closed : input.head = some '\'') : Fails rules quotedChar input := by
  simp only [quotedChar, giving, fails_or, fails_map, fails_literal, fails_sat, escaped_iff]
  refine ⟨fun escaped => absurd (closed.symm.trans escaped.1) (by decide), fun c stands => ?_⟩
  obtain rfl := Option.some.inj (closed.symm.trans stands)
  rfl

/-- What is read of the characters between the quotes is written that way, and if a quote comes next, the last of them
is no backslash. -/
theorem Collects.quotedChars {items : Items Char} (collects : Collects (Reads rules quotedChar) input items) :
    input.Spans (items.values.flatMap escapeQuote) items.next ∧
      (items.next.head = some '\'' → items.values.getLast? ≠ some '\\') := by
  induction collects with
  | failed => exact ⟨Input.spans_nil_iff.mpr rfl, fun _ => by simp⟩
  | stopped reads still =>
    obtain ⟨spans, last⟩ := takes_quotedChar.mp reads.takes
    refine ⟨by simpa using spans, fun closed same => ?_⟩
    exact last (by simpa using same) closed
  | @more input parsed items reads _ _ ih =>
    obtain ⟨spans, last⟩ := takes_quotedChar.mp reads.takes
    obtain ⟨spans', last'⟩ := ih
    refine ⟨Input.spans_append_iff.mpr ⟨_, spans, spans'⟩, fun closed same => ?_⟩
    have same' : items.values.getLast?.getD parsed.value = '\\' := by
      simpa [Items.after, List.getLast?_cons] using same
    cases found : items.values.getLast? with
    | some c =>
      rw [found, Option.getD_some] at same'
      exact last' closed (found.trans (congrArg some same'))
    | none =>
      rw [found, Option.getD_none] at same'
      have ended : items.values = [] := List.getLast?_eq_none_iff.mp found
      rw [ended, List.flatMap_nil, Input.spans_nil_iff] at spans'
      exact last same' (spans' ▸ closed)

theorem exists_collects_quotedChars {text : List Char} (spans : input.Spans (text.flatMap escapeQuote) next)
    (closed : next.head = some '\'') (last : text.getLast? ≠ some '\\') :
    ∃ error, Collects (Reads rules quotedChar) input ⟨text, next, some error⟩ := by
  induction text generalizing input with
  | nil =>
    obtain rfl := Input.spans_nil_iff.mp spans
    have fails : Fails rules quotedChar next := fails_quotedChar closed
    obtain ⟨error, reads⟩ := fails
    exact ⟨error, .failed reads⟩
  | cons c text ih =>
    rw [List.flatMap_cons, Input.spans_append_iff] at spans
    obtain ⟨middle, first, spans'⟩ := spans
    have last' : text.getLast?.getD c ≠ '\\' := by simpa [List.getLast?_cons] using last
    -- Only the closing quote is written without a backslash in front, and no backslash comes right before that one.
    have takes : Takes rules quotedChar input c middle := by
      refine takes_quotedChar.mpr ⟨first, fun backslash quoteNext => ?_⟩
      cases text with
      | nil => exact last' backslash
      | cons d text =>
        obtain ⟨start, rest, same, other⟩ := exists_escapeQuote_eq_cons d
        rw [List.flatMap_cons, same] at spans'
        exact other (Option.some.inj ((Input.spans_cons_iff.mp spans').1.symm.trans quoteNext))
    have further : input.pos < middle.pos := by
      obtain ⟨start, rest, same, -⟩ := exists_escapeQuote_eq_cons c
      rw [first.pos, same, List.length_cons]
      omega
    obtain ⟨error, collects⟩ := ih spans' (by
      cases found : text.getLast? with
      | none => simp
      | some d => simpa [found] using last')
    exact ⟨error, .more takes further collects⟩

/-- Up to a closing quote, the body of a literal is the text it stands for with its quotes escaped. That text does not
end in a backslash: it would have been read together with the quote. -/
theorem takes_quotedBody {value : String} (closed : next.head = some '\'') :
    Takes rules quotedBody input value next ↔
      input.Spans (value.toList.flatMap escapeQuote) next ∧ value.toList.getLast? ≠ some '\\' := by
  have body : (quotedBody : Grammar Value String) = quotedChar.many1.joined.or (pure "") := rfl
  rw [body, takes_or, takes_joined, takes_pure, many1]
  simp only [takes_rep]
  constructor
  · intro given
    rcases given with ⟨c, rest, ⟨failure, collects, -⟩, rfl⟩ | ⟨-, rfl, rfl⟩
    · rw [String.toList_ofList]
      exact ⟨collects.quotedChars.1, collects.quotedChars.2 closed⟩
    · exact ⟨Input.spans_nil_iff.mpr rfl, by simp⟩
  · intro given
    obtain ⟨spans, last⟩ := given
    cases text : value.toList with
    | nil =>
      rw [text] at spans
      obtain rfl := Input.spans_nil_iff.mp spans
      have none : Fails rules quotedChar.many1.joined next := fails_refine.mpr (.inl (fails_quotedChar closed).many1)
      exact .inr ⟨none, String.toList_eq_nil_iff.mp text, rfl⟩
    | cons c rest =>
      rw [text] at spans last
      have collects : ∃ error, Collects (Reads rules quotedChar) input ⟨c :: rest, next, some error⟩ :=
        exists_collects_quotedChars spans closed last
      obtain ⟨error, collects⟩ := collects
      refine .inl ⟨c, rest, ⟨some error, collects, .inl (Nat.le_add_left 1 _)⟩, ?_⟩
      rw [← text, String.ofList_toList]

end Body

section Literals

theorem takes_quote {value : String} :
    Takes rules (((char '\'').seqRight quotedBody).seqLeft (char '\'')) input value next ↔
      input.Spans (quote value.toList) next ∧ value.toList.getLast? ≠ some '\\' := by
  simp only [seqLeft, seqRight, takes_bind, takes_map, takes_char, quote, Input.spans_append_iff]
  constructor
  · intro given
    obtain ⟨_, behind, ⟨_, start, ⟨rfl, opening⟩, body⟩, _, ⟨rfl, closing⟩, rfl⟩ := given
    have closed : behind.head = some '\'' := (Input.spans_cons_iff.mp closing).1
    obtain ⟨spans, last⟩ := (takes_quotedBody closed).mp body
    exact ⟨⟨behind, ⟨start, opening, spans⟩, closing⟩, last⟩
  · intro given
    obtain ⟨⟨behind, ⟨start, opening, spans⟩, closing⟩, last⟩ := given
    have closed : behind.head = some '\'' := (Input.spans_cons_iff.mp closing).1
    refine ⟨value, behind, ⟨_, start, ⟨rfl, opening⟩, ?_⟩, _, ⟨rfl, closing⟩, rfl⟩
    exact (takes_quotedBody closed).mpr ⟨spans, last⟩

/-- A literal is a text between quotes, with white space around it that ends where something else comes. -/
theorem takes_quotedText {value : String} : Takes rules quotedText input value next ↔
    ∃ front behind, front.all Text.isWhite ∧ behind.all Text.isWhite ∧
      input.Spans (front ++ quote value.toList ++ behind) next ∧ value.toList.getLast? ≠ some '\\' ∧
        ∀ c, next.head = some c → Text.isWhite c = false := by
  rw [quotedText, takes_token]
  simp only [takes_quote, Input.spans_append_iff]
  constructor
  · intro given
    obtain ⟨middle, ⟨spans, last⟩, rfl⟩ := given
    have leading := input.spans_skipWhile Text.isWhite
    have trailing := middle.spans_skipWhile Text.isWhite
    have stops : ∀ c, middle.skipWhite.head = some c → Text.isWhite c = false := fun _ => Input.head_skipWhile
    exact ⟨_, _, List.all_takeWhile, List.all_takeWhile, ⟨middle, ⟨_, leading, spans⟩, trailing⟩, last, stops⟩
  · intro given
    obtain ⟨front, behind, white, white', ⟨middle, ⟨start, leading, spans⟩, trailing⟩, last, stops⟩ := given
    have opened : start.head = some '\'' := (Input.spans_cons_iff.mp spans).1
    have begins : input.skipWhite = start := by
      refine leading.skipWhile_eq white fun c stands => ?_
      obtain rfl := Option.some.inj (opened.symm.trans stands)
      decide
    have ends : middle.skipWhite = next := trailing.skipWhile_eq white' stops
    exact ⟨middle, ⟨begins ▸ spans, last⟩, ends.symm⟩

theorem Reads.is_quote {parsed : Parsed String} (reads : Reads rules quotedText input (.ok parsed)) :
    parsed.value.toList.getLast? ≠ some '\\' ∧ input.rest = parsed.matched.toList ++ parsed.next.rest ∧
      ∃ front behind, front.all Text.isWhite ∧ behind.all Text.isWhite ∧
        parsed.matched = String.ofList (front ++ quote parsed.value.toList ++ behind) := by
  obtain ⟨front, behind, white, white', spans, last, -⟩ := takes_quotedText.mp reads.takes
  have matched := reads.matched_eq spans.spells
  refine ⟨last, ?_, front, behind, white, white', matched⟩
  rw [matched, String.toList_ofList]
  exact spans.rest

theorem Reads.encloses {parsed : Parsed String} (reads : Reads rules quotedText input (.ok parsed)) :
    Encloses parsed.matched.toList (parsed.value.toList.flatMap escapeQuote) := by
  obtain ⟨-, -, front, behind, white, white', matched⟩ := reads.is_quote
  exact ⟨front, behind, white, white', by rw [matched, String.toList_ofList, quote]⟩

/-- String literals and the texts they stand for belong together one to one. A text that does not end in a backslash is
read back from the literal it is written as, whatever white space stands around it and whatever comes behind that. And
whatever is read has been written that way: the matched text is the literal of the value between white space. So no
literal stands for a text that ends in a backslash, and literals that differ between their quotes stand for different
texts. -/
theorem quotedText_round_trips [Storable (Except ParseError (Parsed String)) σ] (rules : Rules Value) :
    (∀ (text front behind rest : List Char) (input : Input), text.getLast? ≠ some '\\' →
      front.all Text.isWhite → behind.all Text.isWhite → (∀ c, rest.head? = some c → Text.isWhite c = false) →
        input.rest = front ++ quote text ++ behind ++ rest →
          ∃ next, Gives σ rules quotedText input (.ok ⟨String.ofList text, input, next⟩) ∧ next.rest = rest ∧
            next = input.skip (front ++ quote text ++ behind).length) ∧
    (∀ (input : Input) (parsed : Parsed String), Gives σ rules quotedText input (.ok parsed) →
      parsed.value.toList.getLast? ≠ some '\\' ∧ input.rest = parsed.matched.toList ++ parsed.next.rest ∧
        ∃ front behind, front.all Text.isWhite ∧ behind.all Text.isWhite ∧
          parsed.matched = String.ofList (front ++ quote parsed.value.toList ++ behind)) ∧
    ∀ (input input' : Input) (parsed parsed' : Parsed String) (body body' : List Char),
      Gives σ rules quotedText input (.ok parsed) → Gives σ rules quotedText input' (.ok parsed') →
        Encloses parsed.matched.toList body → Encloses parsed'.matched.toList body' →
          body ≠ body' → parsed.value ≠ parsed'.value := by
  simp only [← reads_iff_gives]
  refine ⟨fun text front behind rest input last white white' stops left => ?_, fun _ _ => Reads.is_quote, ?_⟩
  · obtain ⟨spans, after⟩ := Input.spans_of_rest_eq left
    refine ⟨_, takes_quotedText.mpr ⟨front, behind, white, white', ?_⟩, after, rfl⟩
    rw [String.toList_ofList]
    exact ⟨spans, last, fun c stands => stops c (after ▸ stands)⟩
  · intro input input' parsed parsed' body body' reads reads' encloses encloses' different same
    have body_eq := encloses.unique reads.encloses
    have body_eq' := encloses'.unique reads'.encloses
    exact different (by rw [body_eq, body_eq', same])

theorem quotedText_round_trips_escaped :
    let rules : Rules fun _ : Unit => Unit := Rules.empty
    let source := Input.ofString " 'a\\\\'b'\t;"
    let plain := Input.ofString "'ab'"
    ∃ parsed parsed' : Parsed String,
      Gives (Except ParseError (Parsed String)) rules quotedText source (.ok parsed) ∧
      Gives (Except ParseError (Parsed String)) rules quotedText plain (.ok parsed') ∧
        parsed.value = "a\\'b" ∧ parsed.next.rest = [';'] ∧ source.rest = parsed.matched.toList ++ [';'] ∧
          parsed.value ≠ parsed'.value := by
  intro rules source plain
  obtain ⟨written, read, different⟩ := quotedText_round_trips (σ := Except ParseError (Parsed String)) rules
  have text : (['a', '\\', '\'', 'b'] : List Char).getLast? ≠ some '\\' := by decide
  have stops : ∀ c, [';'].head? = some c → Text.isWhite c = false := by simp; decide
  obtain ⟨next, gives, rest, rfl⟩ := written _ [' '] ['\t'] [';'] source text (by decide) (by decide) stops rfl
  obtain ⟨next', gives', -, rfl⟩ := written ['a', 'b'] [] [] [] plain (by decide) rfl rfl (by simp) rfl
  have encloses : Encloses " 'a\\\\'b'\t".toList ['a', '\\', '\\', '\'', 'b'] :=
    ⟨[' '], ['\t'], by decide, by decide, by decide⟩
  have encloses' : Encloses "'ab'".toList ['a', 'b'] := ⟨[], [], rfl, rfl, by decide⟩
  refine ⟨_, _, gives, gives', rfl, rest, ?_, ?_⟩
  · exact rest ▸ (read source _ gives).2.1
  · exact different source plain _ _ _ _ gives gives' encloses encloses' (by decide)

end Literals

end Grammar

end Deferred
