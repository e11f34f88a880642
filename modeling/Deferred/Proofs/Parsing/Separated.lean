import Deferred.Proofs.Parsing.Environment
import Deferred.Proofs.Parsing.Repetition

/-! Items with separators between them, and chains in general, are what they abbreviate: a first item, and behind
it a repetition of pairs. A pair is taken as a whole or not at all, so a separator without an item behind it is
given back. How many items there must be is another matter: a minimum is only asked for where an attempt fails, and
with separators only where the first attempt does. -/

namespace Deferred.Grammar

variable {ρ : Type} {Value : ρ → Type} {rules : Rules Value} {σ α β γ : Type} {input place : Input}

section Composition

theorem atLeast_zero (found : Items α) (start : Input) :
    found.atLeast 0 start = .ok ⟨found.values, start, found.next⟩ := by
  cases failure : found.failure with
  | none => simp only [Items.atLeast, failure]
  | some error => simp only [Items.atLeast, failure, if_pos (Nat.zero_le _)]

theorem reads_many {item : Grammar Value α} {answer : Except ParseError (Parsed (List α))} :
    Reads rules item.many input answer ↔
      ∃ found, Collects (Reads rules item) input found ∧ answer = .ok ⟨found.values, input, found.next⟩ := by
  simp only [many, reads_rep, atLeast_zero]

theorem reads_seq {first : Grammar Value α} {second : Grammar Value β}
    {answer : Except ParseError (Parsed (α × β))} :
    Reads rules (first.seq second) input answer ↔
      (∃ error, Reads rules first input (.error error) ∧ answer = .error error) ∨
        ∃ left inner, Reads rules first input (.ok left) ∧ Reads rules second left.next inner ∧
          answer = inner.map fun right => ⟨(left.value, right.value), input, right.next⟩ := by
  rw [seq, reads_bind]
  refine or_congr Iff.rfl ?_
  constructor
  · rintro ⟨left, inner, head, tail, rfl⟩
    obtain ⟨right, read, rfl⟩ := reads_map.mp tail
    obtain rfl := head.from.start
    refine ⟨left, right, head, read, ?_⟩
    cases right with
    | error error => rfl
    | ok right => rfl
  · rintro ⟨left, right, head, read, rfl⟩
    obtain rfl := head.from.start
    refine ⟨left, _, head, reads_map.mpr ⟨right, read, rfl⟩, ?_⟩
    cases right with
    | error error => rfl
    | ok right => rfl

theorem reads_chain_iff {first : Grammar Value α} {more : Grammar Value β} {combine : α → List β → γ}
    {answer : Except ParseError (Parsed γ)} :
    Reads rules (.chain first more combine none) input answer ↔
      Reads rules ((first.seq more.many).map fun pair => combine pair.1 pair.2) input answer := by
  rw [reads_chain, reads_map]
  constructor
  · rintro (⟨error, failed, rfl⟩ | ⟨parsed, found, head, collects, rfl⟩)
    · exact ⟨.error error, reads_seq.mpr (.inl ⟨error, failed, rfl⟩), rfl⟩
    · exact ⟨_, reads_seq.mpr (.inr ⟨parsed, _, head, reads_many.mpr ⟨found, collects, rfl⟩, rfl⟩), rfl⟩
  · rintro ⟨inner, reads, rfl⟩
    rcases reads_seq.mp reads with ⟨error, failed, rfl⟩ | ⟨parsed, _, head, tail, rfl⟩
    · exact .inl ⟨error, failed, rfl⟩
    · obtain ⟨found, collects, rfl⟩ := reads_many.mp tail
      exact .inr ⟨parsed, found, head, collects, rfl⟩

theorem reads_chain_some_iff {first : Grammar Value α} {more : Grammar Value β} {combine : α → List β → γ}
    {value : γ} {answer : Except ParseError (Parsed γ)} :
    Reads rules (.chain first more combine (some value)) input answer ↔
      Reads rules ((Grammar.chain first more combine none).or (.pure value)) input answer := by
  rw [reads_or, reads_chain]
  simp only [reads_chain, reads_pure]
  constructor
  · rintro (⟨error, failed, rfl⟩ | ⟨parsed, found, head, collects, rfl⟩)
    · exact .inr ⟨error, _, .inl ⟨error, failed, rfl⟩, rfl, rfl⟩
    · exact .inl ⟨_, .inr ⟨parsed, found, head, collects, rfl⟩, rfl⟩
  · rintro (⟨whole, ⟨error, _, never⟩ | ⟨parsed, found, head, collects, same⟩, rfl⟩ |
      ⟨error, _, ⟨error', failed, -⟩ | ⟨_, _, _, _, never⟩, rfl, rfl⟩)
    · cases never
    · exact .inr ⟨parsed, found, head, collects, same⟩
    · exact .inl ⟨error', failed, rfl⟩
    · cases never

end Composition

section Separators

variable {item : Grammar Value α} {separator : Grammar Value β}

def firstThenPairs (item : Grammar Value α) (separator : Grammar Value β) : Grammar Value (List α) :=
  (item.seq (separator.seqRight item).many).map fun pair => pair.1 :: pair.2

theorem reads_sepBy1_iff {answer : Except ParseError (Parsed (List α))} :
    Reads rules (item.sepBy1 separator) input answer ↔
      Reads rules (firstThenPairs item separator) input answer := by
  rw [sepBy1, sepByMin, if_neg Nat.one_ne_zero]
  exact reads_chain_iff

theorem reads_sepBy_iff {answer : Except ParseError (Parsed (List α))} :
    Reads rules (item.sepBy separator) input answer ↔
      Reads rules ((firstThenPairs item separator).or (.pure [])) input answer := by
  rw [sepBy, sepByMin, if_pos rfl, reads_chain_some_iff, reads_or, reads_or]
  simp only [reads_chain_iff, firstThenPairs]

theorem not_reads_sepBy_error (error : ParseError) : ¬Reads rules (item.sepBy separator) input (.error error) := by
  intro reads
  rcases reads_chain.mp reads with ⟨_, _, never⟩ | ⟨_, _, _, _, never⟩ <;> cases never

theorem Reads.separated {least : Nat} {whole : Parsed (List α)}
    (reads : Reads rules (item.sepByMin separator least) input (.ok whole)) :
    Chains rules item separator (fun first pairs => first :: pairs.map Prod.snd) input whole ∨
      least = 0 ∧ whole = .empty [] input := by
  rcases reads.chains separator (fun _ right => right) (fun _ _ read => read.splits_bind) with
    chains | ⟨value, fallback, same⟩
  · exact .inl chains
  · by_cases none : least = 0
    · rw [if_pos none] at fallback
      exact .inr ⟨none, Option.some.inj fallback ▸ same⟩
    · rw [if_neg none] at fallback
      cases fallback

theorem Linked.reads_seqRight {pair : Parsed β × Parsed α}
    (linked : Linked rules separator item input pair place) :
    Reads rules (separator.seqRight item) input (.ok ⟨pair.2.value, input, place⟩) := by
  obtain ⟨middle, ⟨head, rfl⟩, tail, rfl⟩ := linked
  obtain rfl := head.from.start
  exact reads_bind.mpr (.inr ⟨pair.1, .ok pair.2, head, tail, rfl⟩)

/-- A separator without an item behind it is given back, whatever can be read as a separator and whatever can be read
as an item. -/
theorem reads_sepByMin_of_dangling {least : Nat} {first : Parsed α} {middle : Input}
    {pairs : List (Parsed β × Parsed α)} {between : Parsed β} {error : ParseError}
    (head : Piece rules item input first middle)
    (row : Row (Further (Linked rules separator item)) middle pairs place)
    (dangling : Reads rules separator place (.ok between)) (missing : Reads rules item between.next (.error error)) :
    Reads rules (item.sepByMin separator least) input
      (.ok ⟨first.value :: pairs.map (·.2.value), input, place⟩) := by
  obtain ⟨read, rfl⟩ := head
  have failed : Reads rules (separator.seqRight item) place (.error error) :=
    reads_bind.mpr (.inr ⟨between, .error error, dangling, missing, rfl⟩)
  have collects :=
    row.collects (·.2.value) (fun _ _ _ linked => ⟨_, linked.reads_seqRight, rfl, rfl⟩) (.failed failed)
  rw [Items.after, List.append_nil] at collects
  exact reads_sepByMin_of_ok read collects

theorem length_itemsOf_ok (items : List (Parsed α)) (place : Input) (parsed : Parsed α) :
    (itemsOf items place (.ok parsed)).values.length = items.length + 1 := by
  rw [itemsOf, List.length_append, List.length_map, List.length_singleton]

/-- A repetition has the items that it asks for, unless an item that matches the empty text ends it too early: then
the minimum is not asked for. -/
theorem rep_honours_iff {least : Nat} :
    (∀ whole, Reads rules (item.rep least) input (.ok whole) → least ≤ whole.value.length) ↔
      ∀ items place parsed, Attempts rules item input items place (.ok parsed) → least ≤ items.length + 1 := by
  constructor
  · intro honoured items place parsed attempts
    have counted := honoured _ (reads_rep_iff.mpr ⟨items, place, .ok parsed, attempts, rfl⟩)
    rwa [length_itemsOf_ok] at counted
  · intro honoured whole reads
    obtain ⟨items, place, last, attempts, same⟩ := reads_rep_iff.mp reads
    cases last with
    | ok parsed =>
      obtain rfl := Except.ok.inj same
      rw [length_itemsOf_ok]
      exact honoured items place parsed attempts
    | error error =>
      rw [atLeast_itemsOf_error] at same
      by_cases enough : least ≤ items.length
      · rw [if_pos enough] at same
        rwa [Except.ok.inj same, List.length_map]
      · rw [if_neg enough] at same
        cases same

theorem sepByMin_eq_sepBy1 {least : Nat} (some : least ≠ 0) :
    item.sepByMin separator least = item.sepBy1 separator := by
  rw [sepBy1, sepByMin, sepByMin, if_neg some, if_neg Nat.one_ne_zero]

theorem sepByMin_honours_iff {least : Nat} :
    (∀ whole, Reads rules (item.sepByMin separator least) input (.ok whole) → least ≤ whole.value.length) ↔
      least ≤ 1 ∨ ∀ whole, Reads rules (item.sepBy1 separator) input (.ok whole) → least ≤ whole.value.length := by
  by_cases few : least ≤ 1
  · refine iff_of_true (fun whole reads => ?_) (.inl few)
    rcases reads.separated with ⟨first, _, pairs, _, _, value, _⟩ | ⟨none, _⟩
    · rw [value, List.length_cons]
      omega
    · omega
  · rw [sepByMin_eq_sepBy1 (by omega), or_iff_right few]

end Separators

/-- Items with separators between them are what they abbreviate. At least one item with separators is a first item
and a repetition of pairs of a separator and an item, with the first value put in front: waiting for the one comes to
an outcome just if waiting for the other comes to it, with the same values and places, and the same error. Any number
of items with separators is the same or else nothing, so it never fails, and it succeeds wherever items and separators
can be read. Whatever was read as separators, each of them has an item behind it; and if behind pairs that took text
away there is one more separator but no item, the outcome ends in front of that separator. -/
theorem sepBy_is_composition [Storable (Except ParseError (Parsed (List α))) σ] (rules : Rules Value)
    (item : Grammar Value α) (separator : Grammar Value β) (input : Input) :
    (∀ answer, Gives σ rules (item.sepBy1 separator) input answer ↔
      Gives σ rules (firstThenPairs item separator) input answer) ∧
    (∀ answer, Gives σ rules (item.sepBy separator) input answer ↔
      Gives σ rules ((firstThenPairs item separator).or (.pure [])) input answer) ∧
    (∀ error, ¬Gives σ rules (item.sepBy separator) input (.error error)) ∧
    (EndsFrom rules input item → EndsFrom rules input separator →
      ∃ whole, Gives σ rules (item.sepBy separator) input (.ok whole)) ∧
    (∀ least whole, Gives σ rules (item.sepByMin separator least) input (.ok whole) →
      Chains rules item separator (fun first pairs => first :: pairs.map Prod.snd) input whole ∨
        least = 0 ∧ whole = .empty [] input) ∧
    ∀ first middle pairs place between error, Piece rules item input first middle →
      Row (Further (Linked rules separator item)) middle pairs place →
      Reads rules separator place (.ok between) → Reads rules item between.next (.error error) →
      ∀ least, Gives σ rules (item.sepByMin separator least) input
        (.ok ⟨first.value :: pairs.map (·.2.value), input, place⟩) := by
  simp only [← reads_iff_gives]
  refine ⟨fun _ => reads_sepBy1_iff, fun _ => reads_sepBy_iff, not_reads_sepBy_error, ?_,
    fun _ _ reads => reads.separated,
    fun _ _ _ _ _ _ head row dangling missing _ => reads_sepByMin_of_dangling head row dangling missing⟩
  intro ends ends'
  have both : EndsFrom rules input (item.sepBy separator) := ends.chain _ _ (ends'.seqRight ends)
  obtain ⟨answer, reads⟩ := both input (.refl input)
  cases answer with
  | error error => exact absurd reads (not_reads_sepBy_error error)
  | ok whole => exact ⟨whole, reads⟩

/-- The separator may be missing as well. The comma behind the second digit can be read, but nothing behind it. -/
theorem sepBy_is_composition_dangling :
    let item : Grammar (fun _ : Unit => Unit) Char := digit
    let separator : Grammar (fun _ : Unit => Unit) Unit := ((char ',').giving ()).or (.pure ())
    let input : Input := .ofString "12,"
    let outcome : Except ParseError (Parsed (List Char)) := .ok ⟨['1', '2'], input, input.skip 2⟩
    EndsFrom Rules.empty input item ∧ EndsFrom Rules.empty input separator ∧
      Reads Rules.empty separator (input.skip 2) (.ok ⟨(), input.skip 2, input.skip 3⟩) ∧
      (∃ error, Reads Rules.empty item (input.skip 3) (.error error)) ∧
      Gives CharsOutcome Rules.empty (item.sepBy separator) input outcome ∧
      Gives CharsOutcome Rules.empty (item.sepBy1 separator) input outcome ∧
      Gives CharsOutcome Rules.empty (firstThenPairs item separator) input outcome := by
  intro item separator input outcome
  have ends : EndsFrom Rules.empty input item := endsFrom_sat _ _
  have ends' : EndsFrom Rules.empty input separator := ((endsFrom_sat _ _).map _).or (endsFrom_pure _)
  have head : Piece Rules.empty item input ⟨'1', input, input.skip 1⟩ (input.skip 1) := ⟨⟨1, rfl⟩, rfl⟩
  have linked : Linked Rules.empty separator item (input.skip 1)
      (⟨(), input.skip 1, input.skip 1⟩, ⟨'2', input.skip 1, input.skip 2⟩) (input.skip 2) :=
    ⟨_, ⟨⟨1, rfl⟩, rfl⟩, ⟨1, rfl⟩, rfl⟩
  have comma : Reads Rules.empty separator (input.skip 2) (.ok ⟨(), input.skip 2, input.skip 3⟩) := ⟨1, rfl⟩
  have missing : Reads Rules.empty item (input.skip 3) (.error ((input.skip 3).mismatch "digit")) := ⟨1, rfl⟩
  obtain ⟨composed, -, -, -, -, dangling⟩ :=
    sepBy_is_composition (σ := CharsOutcome) Rules.empty item separator input
  have given := dangling _ _ _ _ _ _ head (.cons ⟨linked, by decide⟩ .nil) comma missing
  exact ⟨ends, ends', comma, ⟨_, missing⟩, given 0, given 1, (composed _).mp (given 1)⟩

/-- When a minimum is honoured. That of a repetition is just where no item that matches the empty text ends the
repetition too early. That of items with separators between them is if it is at most one; a greater one counts as
one, so it is honoured just where there are so many items anyway. -/
theorem minimum_honoured_iff [Storable (Except ParseError (Parsed (List α))) σ] (rules : Rules Value)
    (item : Grammar Value α) (separator : Grammar Value β) (least : Nat) (input : Input) :
    ((∀ whole, Gives σ rules (item.rep least) input (.ok whole) → least ≤ whole.value.length) ↔
      ∀ items place parsed, Attempts rules item input items place (.ok parsed) → least ≤ items.length + 1) ∧
    ((∀ whole, Gives σ rules (item.sepByMin separator least) input (.ok whole) → least ≤ whole.value.length) ↔
      least ≤ 1 ∨
        ∀ whole, Gives σ rules (item.sepBy1 separator) input (.ok whole) → least ≤ whole.value.length) := by
  simp only [← reads_iff_gives]
  exact ⟨rep_honours_iff, sepByMin_honours_iff⟩

/-- Two items were asked for, but one was read: of digits with commas between them, and of items that match the empty
text. -/
theorem minimum_missed :
    (∃ whole, Gives CharsOutcome Rules.empty
      ((digit : Grammar (fun _ : Unit => Unit) Char).sepByMin (char ',') 2) (.ofString "1") (.ok whole) ∧
        whole.value = ['1']) ∧
    ∃ whole, Gives CharsOutcome Rules.empty ((Grammar.pure 'x' : Grammar (fun _ : Unit => Unit) Char).rep 2)
      (.ofString "") (.ok whole) ∧ whole.value = ['x'] := by
  have separated : Reads Rules.empty ((digit : Grammar (fun _ : Unit => Unit) Char).sepByMin (char ',') 2)
      (.ofString "1") (.ok ⟨['1'], .ofString "1", (Input.ofString "1").skip 1⟩) := ⟨4, rfl⟩
  have repeated : Reads Rules.empty ((Grammar.pure 'x' : Grammar (fun _ : Unit => Unit) Char).rep 2)
      (.ofString "") (.ok ⟨['x'], .ofString "", .ofString ""⟩) := ⟨4, rfl⟩
  exact ⟨⟨_, separated.gives, rfl⟩, _, repeated.gives, rfl⟩

end Deferred.Grammar
