import Deferred.Proofs.Parsing.Spans

/-! Repetitions are greedy. All their attempts but the last one take text away, so they are no more than the
characters that are left and one; the last attempt fails or matches the empty text. What comes of a repetition is
read off its attempts, and so is the work on a loop: the jobs of the attempts, and one job for each of them. -/

namespace Deferred.Grammar

variable {ρ : Type} {Value : ρ → Type} {rules : Rules Value} {σ α β γ : Type} {input place : Input}

section Attempts

def Further (piece : Input → γ → Input → Prop) (input : Input) (content : γ) (next : Input) : Prop :=
  piece input content next ∧ input.pos < next.pos

/-- The attempts of a repetition: items that take text away, one behind the other, and the last attempt, which
fails or matches the empty text. -/
structure Attempts (rules : Rules Value) (item : Grammar Value α) (input : Input) (items : List (Parsed α))
    (place : Input) (last : Except ParseError (Parsed α)) : Prop where
  row : Row (Further (Piece rules item)) input items place
  tried : Reads rules item place last
  ends : ∀ parsed, last = .ok parsed → ¬place.pos < parsed.next.pos

def itemsOf (items : List (Parsed α)) (place : Input) : Except ParseError (Parsed α) → Items α
  | .ok parsed => ⟨items.map Parsed.value ++ [parsed.value], parsed.next, none⟩
  | .error error => ⟨items.map Parsed.value, place, some error⟩

theorem itemsOf_cons (first : Parsed α) (items : List (Parsed α)) (place : Input)
    (last : Except ParseError (Parsed α)) :
    itemsOf (first :: items) place last = (itemsOf items place last).after [first.value] := by
  cases last with
  | ok parsed => rfl
  | error error => rfl

theorem atLeast_itemsOf_ok (items : List (Parsed α)) (place : Input) (parsed : Parsed α) (least : Nat) (start : Input) :
    (itemsOf items place (.ok parsed)).atLeast least start =
      .ok ⟨items.map Parsed.value ++ [parsed.value], start, parsed.next⟩ := rfl

theorem atLeast_itemsOf_error (items : List (Parsed α)) (place : Input) (error : ParseError) (least : Nat)
    (start : Input) : (itemsOf items place (.error error)).atLeast least start =
      if least ≤ items.length then .ok ⟨items.map Parsed.value, start, place⟩ else .error error := by
  simp only [itemsOf, Items.atLeast, List.length_map]

theorem Collects.exists_attempts {item : Grammar Value α} {found : Items α}
    (collects : Collects (Reads rules item) input found) :
    ∃ items place last, Attempts rules item input items place last ∧ found = itemsOf items place last := by
  induction collects with
  | failed failed => exact ⟨[], _, _, ⟨.nil, failed, fun _ never => nomatch never⟩, rfl⟩
  | stopped read still =>
    exact ⟨[], _, _, ⟨.nil, read, fun parsed same => Except.ok.inj same ▸ still⟩, rfl⟩
  | @more _ parsed _ read further _ ih =>
    obtain ⟨items, place, last, attempts, rfl⟩ := ih
    exact ⟨parsed :: items, place, last, ⟨.cons ⟨⟨read, rfl⟩, further⟩ attempts.row, attempts.tried, attempts.ends⟩,
      (itemsOf_cons ..).symm⟩

theorem itemsOf_eq_after (items : List (Parsed α)) (place : Input) (last : Except ParseError (Parsed α)) :
    itemsOf items place last = (itemsOf [] place last).after (items.map Parsed.value) := by
  cases last with
  | ok parsed => rfl
  | error error => rw [itemsOf, itemsOf, Items.after, List.map_nil, List.append_nil]

/-- Pieces that take text away are all collected, and then what is collected behind them. -/
theorem Row.collects {reads : Input → Except ParseError (Parsed α) → Prop} {piece : Input → γ → Input → Prop}
    (value : γ → α) (read : ∀ input content next, piece input content next →
      ∃ parsed, reads input (.ok parsed) ∧ parsed.value = value content ∧ parsed.next = next)
    {contents : List γ} {found : Items α} (row : Row (Further piece) input contents place)
    (behind : Collects reads place found) : Collects reads input (found.after (contents.map value)) := by
  induction row with
  | nil => exact behind
  | cons first _ ih =>
    obtain ⟨parsed, head, same, rfl⟩ := read _ _ _ first.1
    have collects := ih behind
    rw [List.map_cons, ← same, ← List.singleton_append, ← Items.after_after]
    exact .more head first.2 collects

theorem Attempts.collects {item : Grammar Value α} {items : List (Parsed α)}
    {last : Except ParseError (Parsed α)} (attempts : Attempts rules item input items place last) :
    Collects (Reads rules item) input (itemsOf items place last) := by
  have ended : Collects (Reads rules item) place (itemsOf [] place last) := by
    cases last with
    | ok parsed => exact .stopped attempts.tried (attempts.ends parsed rfl)
    | error error => exact .failed attempts.tried
  rw [itemsOf_eq_after]
  exact attempts.row.collects Parsed.value (fun _ parsed _ piece => ⟨parsed, piece.1, rfl, piece.2⟩) ended

theorem reads_rep_iff {item : Grammar Value α} {least : Nat} {answer : Except ParseError (Parsed (List α))} :
    Reads rules (item.rep least) input answer ↔ ∃ items place last,
      Attempts rules item input items place last ∧ answer = (itemsOf items place last).atLeast least input := by
  rw [reads_rep]
  constructor
  · rintro ⟨found, collects, rfl⟩
    obtain ⟨items, place, last, attempts, rfl⟩ := collects.exists_attempts
    exact ⟨items, place, last, attempts, rfl⟩
  · rintro ⟨items, place, last, attempts, rfl⟩
    exact ⟨_, attempts.collects, rfl⟩

theorem Row.before {item : Grammar Value α} {items : List (Parsed α)}
    (row : Row (Further (Piece rules item)) input items place) : input.Before place := by
  induction row with
  | nil => exact .refl _
  | cons first _ ih =>
    obtain ⟨⟨read, rfl⟩, -⟩ := first
    exact read.from.next.trans ih

theorem Row.length_le {piece : Input → γ → Input → Prop} {contents : List γ}
    (row : Row (Further piece) input contents place) : input.pos + contents.length ≤ place.pos := by
  induction row with
  | nil => exact Nat.le_refl _
  | cons first _ ih =>
    have further := first.2
    rw [List.length_cons]
    omega

theorem Attempts.length_le {item : Grammar Value α} {items : List (Parsed α)}
    {last : Except ParseError (Parsed α)} (attempts : Attempts rules item input items place last) :
    items.length ≤ input.rest.length := by
  have inside := attempts.row.before.inside
  have taken := attempts.row.length_le
  rw [input.rest_length, Input.remaining, input.source.size_eq]
  omega

theorem Attempts.next_eq {item : Grammar Value α} {items : List (Parsed α)} {parsed : Parsed α}
    (attempts : Attempts rules item input items place (.ok parsed)) : parsed.next = place := by
  have before := attempts.tried.from.next
  exact Input.ext_pos before.source (Nat.le_antisymm (Nat.le_of_not_lt (attempts.ends parsed rfl)) before.pos)

theorem Row.exists_fuel {item : Grammar Value α} {items : List (Parsed α)}
    (row : Row (Further (Piece rules item)) input items place) :
    ∃ fuel, ∀ parsed ∈ items, read rules fuel item parsed.start = some (.ok parsed) := by
  induction row with
  | nil => exact ⟨0, fun parsed member => absurd member List.not_mem_nil⟩
  | cons first _ ih =>
    have start := first.1.1.from.start
    obtain ⟨fuel, found⟩ := first.1.1
    obtain ⟨fuel', rest⟩ := ih
    refine ⟨max fuel fuel', fun parsed member => ?_⟩
    rcases List.mem_cons.mp member with rfl | member
    · rw [start]
      exact read_mono (Nat.le_max_left ..) found
    · exact read_mono (Nat.le_max_right ..) (rest parsed member)

theorem Attempts.exists_fuel {item : Grammar Value α} {items : List (Parsed α)}
    {last : Except ParseError (Parsed α)} (attempts : Attempts rules item input items place last) :
    ∃ fuel, (∀ parsed ∈ items, read rules fuel item parsed.start = some (.ok parsed)) ∧
      read rules fuel item place = some last := by
  obtain ⟨fuel, each⟩ := attempts.row.exists_fuel
  obtain ⟨fuel', tried⟩ := attempts.tried
  exact ⟨max fuel fuel', fun parsed member => read_mono (Nat.le_max_left ..) (each parsed member),
    read_mono (Nat.le_max_right ..) tried⟩

end Attempts

section Jobs

def GivesIn (σ : Type) [Storable (Except ParseError (Parsed α)) σ] (rules : Rules Value)
    (grammar : Grammar Value α) (input : Input) (answer : Except ParseError (Parsed α)) (jobs : Nat) : Prop :=
  ∃ least, ∀ bound, least < bound → ∀ loop : Loop σ, loop.Vacant →
    ∃ after, loop.waitFor bound (grammar.parse rules input) = some ⟨some answer, jobs, after⟩ ∧ after.Vacant

theorem GivesIn.gives [Storable (Except ParseError (Parsed α)) σ] {grammar : Grammar Value α}
    {answer : Except ParseError (Parsed α)} {jobs : Nat} (gives : GivesIn σ rules grammar input answer jobs) :
    Gives σ rules grammar input answer := by
  obtain ⟨least, waited⟩ := gives
  exact ⟨least, fun bound enough loop vacant => ⟨jobs, waited bound enough loop vacant⟩⟩

def SettlesIn (σ : Type) (rules : Rules Value) (grammar : Grammar Value α) (input : Input)
    (answer : Except ParseError (Parsed α)) (jobs : Nat) : Prop :=
  ∃ least, ∀ depth ≥ least, Future.Settles (parseAt rules depth grammar input : Reading σ α) answer 0 jobs

theorem SettlesIn.givesIn [Storable (Except ParseError (Parsed α)) σ] {grammar : Grammar Value α}
    {answer : Except ParseError (Parsed α)} {jobs : Nat} (settles : SettlesIn σ rules grammar input answer jobs) :
    GivesIn σ rules grammar input answer jobs := by
  obtain ⟨least, settles⟩ := settles
  have delivers : (parse rules grammar input : Reading σ α).Delivers least answer 0 jobs :=
    Future.delivers_bounded fun depth enough => (settles depth enough).delivers least
  refine ⟨least + 2 * jobs, fun bound enough loop vacant => ?_⟩
  obtain ⟨after, waited, -, empty⟩ := delivers.waitFor enough vacant
  exact ⟨after, waited, empty⟩

/-- The loop over the items makes these attempts and no others: it takes the jobs that they take, and one more for
each. -/
theorem settles_gatherFrom_row {item : Grammar Value α} {parseItem : Input → Reading σ α} {items : List (Parsed α)}
    {last : Except ParseError (Parsed α)} (attempts : Attempts rules item input items place last)
    {jobs : Parsed α → Nat} {lastJobs : Nat}
    (settles : ∀ parsed ∈ items, Future.Settles (parseItem parsed.start) (.ok parsed) 0 (jobs parsed))
    (settlesLast : Future.Settles (parseItem place) last 0 lastJobs)
    (finish : Items α → Except ParseError (Parsed γ)) {left : Nat} (seen : List α) (bounded : input.remaining ≤ left) :
    Future.Settles (gatherFrom parseItem finish left seen input)
      (finish ((itemsOf items place last).after seen.reverse)) 0
      ((items.map fun parsed => 1 + jobs parsed).sum + (1 + lastJobs + 1)) := by
  obtain ⟨row, -, ends⟩ := attempts
  induction row generalizing left seen with
  | @nil place =>
    rw [List.map_nil, List.sum_nil, Nat.zero_add]
    unfold gatherFrom
    apply settles_bindOutcome settlesLast
    cases last with
    | error error =>
      simp only [itemsOf, Items.after, List.map_nil, List.append_nil]
      exact .settled _
    | ok parsed =>
      simp only [itemsOf, Items.after, List.map_nil, List.nil_append, ← List.reverse_cons]
      cases left with
      | zero => exact .settled _
      | succ left =>
        simp only [if_neg (ends parsed rfl)]
        exact .settled _
  | @cons start middle _ first rest head _ ih =>
    obtain ⟨⟨read, rfl⟩, further⟩ := head
    have settlesFirst := settles first (List.mem_cons_self ..)
    rw [read.from.start] at settlesFirst
    have less := read.from.next.remaining_lt further
    obtain ⟨left, rfl⟩ := Nat.exists_eq_succ_of_ne_zero (Nat.ne_zero_of_lt (less.trans_le bounded))
    have within : first.next.remaining ≤ left := Nat.le_of_lt_succ (less.trans_le bounded)
    rw [itemsOf_cons, Items.after_after, ← List.reverse_cons, List.map_cons, List.sum_cons, Nat.add_assoc]
    unfold gatherFrom
    apply settles_bindOutcome settlesFirst
    simp only [if_pos further]
    exact ih (fun parsed member => settles parsed (List.mem_cons_of_mem _ member)) settlesLast _ within ends

theorem Attempts.exists_jobs (σ : Type) {item : Grammar Value α} {items : List (Parsed α)}
    {last : Except ParseError (Parsed α)} (attempts : Attempts rules item input items place last) (least : Nat) :
    ∃ (jobs : Parsed α → Nat) (lastJobs : Nat),
      (∀ parsed ∈ items, SettlesIn σ rules item parsed.start (.ok parsed) (jobs parsed)) ∧
      SettlesIn σ rules item place last lastJobs ∧
      SettlesIn σ rules (item.rep least) input ((itemsOf items place last).atLeast least input)
        ((items.map fun parsed => 1 + jobs parsed).sum + (1 + lastJobs + 1)) := by
  obtain ⟨fuel, each, tried⟩ := attempts.exists_fuel
  have agrees : Agrees fuel (read rules fuel item) fun depth =>
      (parseAt rules depth item : Input → Reading σ α) := agrees_parseAt item
  have counted : ∀ parsed, ∃ jobs, parsed ∈ items → ∀ depth ≥ fuel,
      Future.Settles (parseAt rules depth item parsed.start : Reading σ α) (.ok parsed) 0 jobs := by
    intro parsed
    by_cases member : parsed ∈ items
    · obtain ⟨jobs, settles⟩ := agrees (each parsed member)
      exact ⟨jobs, fun _ => settles⟩
    · exact ⟨0, fun inside => absurd inside member⟩
  choose jobs settles using counted
  obtain ⟨lastJobs, settlesLast⟩ := agrees tried
  refine ⟨jobs, lastJobs, fun parsed member => ⟨fuel, settles parsed member⟩, ⟨fuel, settlesLast⟩, fuel,
    fun depth enough => ?_⟩
  have gathers := settles_gatherFrom_row attempts (fun parsed member => settles parsed member depth enough)
    (settlesLast depth enough) (fun found => found.atLeast least input) [] (Nat.le_refl _)
  have same : (parseAt rules depth item : Input → Reading σ α) = item.parseWith (ruleAt rules depth) :=
    funext fun place => parseAt_eq depth item place
  rw [parseAt_eq, parseWith, repeatFrom_eq, ← same]
  exact gathers

end Jobs

/-- Repetitions are greedy. Where items can be read, a repetition ends, after at most one attempt more than there are
characters left: each attempt but the last one matches an item that takes text away, the first from the start and
each other one from where the one before it ended. The loop runs the jobs of these attempts, one job for each of
them, and one more. If the repetition succeeds, it ends where the last attempt was made, with the values of the items;
there the last attempt has failed, or it has matched the empty text and its value is the last one. The repetition
fails just if the last attempt failed and there are fewer items than asked for, and with the error of that attempt. -/
theorem rep_takes_as_many_as_there_are [Storable (Except ParseError (Parsed α)) σ]
    [Storable (Except ParseError (Parsed (List α))) σ] {item : Grammar Value α} (ends : EndsFrom rules input item)
    (least : Nat) :
    ∃ (items : List (Parsed α)) (place : Input) (last : Except ParseError (Parsed α))
      (answer : Except ParseError (Parsed (List α))) (jobs : Parsed α → Nat) (lastJobs : Nat),
      Attempts rules item input items place last ∧
      items.length + 1 ≤ input.rest.length + 1 ∧
      (∀ parsed ∈ items, GivesIn σ rules item parsed.start (.ok parsed) (jobs parsed)) ∧
      GivesIn σ rules item place last lastJobs ∧
      GivesIn σ rules (item.rep least) input answer
        ((items.map fun parsed => 1 + jobs parsed).sum + (1 + lastJobs + 1)) ∧
      (∀ whole, answer = .ok whole → whole.start = input ∧ whole.next = place ∧
        ((∃ error, last = .error error ∧ whole.value = items.map Parsed.value) ∨
          ∃ parsed, last = .ok parsed ∧ parsed.next = place ∧
            whole.value = items.map Parsed.value ++ [parsed.value])) ∧
      ∀ error, answer = .error error ↔ last = .error error ∧ items.length < least := by
  obtain ⟨found, collects⟩ := ends.collects (.refl input)
  obtain ⟨items, place, last, attempts, rfl⟩ := collects.exists_attempts
  obtain ⟨jobs, lastJobs, settles, settlesLast, settlesAll⟩ := attempts.exists_jobs σ least
  refine ⟨items, place, last, _, jobs, lastJobs, attempts, Nat.succ_le_succ attempts.length_le,
    fun parsed member => (settles parsed member).givesIn, settlesLast.givesIn, settlesAll.givesIn, ?_, ?_⟩
  · intro whole same
    cases last with
    | ok parsed =>
      obtain rfl := Except.ok.inj same
      exact ⟨rfl, attempts.next_eq, .inr ⟨parsed, rfl, attempts.next_eq, rfl⟩⟩
    | error error =>
      rw [atLeast_itemsOf_error] at same
      by_cases enough : least ≤ items.length
      · rw [if_pos enough] at same
        exact Except.ok.inj same ▸ ⟨rfl, rfl, .inl ⟨error, rfl, rfl⟩⟩
      · rw [if_neg enough] at same
        cases same
  · intro error
    cases last with
    | ok parsed => simp [atLeast_itemsOf_ok]
    | error error' =>
      rw [atLeast_itemsOf_error]
      by_cases enough : least ≤ items.length
      · simp [if_pos enough, Nat.not_lt.mpr enough]
      · simp [if_neg enough, Nat.lt_of_not_le enough]

abbrev CharsOutcome : Type :=
  Except ParseError (Parsed Char) ⊕ Except ParseError (Parsed (List Char))

/-- Two digits, and the empty text behind them. -/
theorem rep_takes_as_many_as_there_are_nullable :
    let item : Grammar (fun _ : Unit => Unit) Char := digit.or (.pure '-')
    let input : Input := .ofString "12x"
    EndsFrom Rules.empty input item ∧
      ∃ (items : List (Parsed Char)) (place : Input) (last : Parsed Char) (whole : Parsed (List Char)) (ran : Nat),
        Attempts Rules.empty item input items place (.ok last) ∧ items.length + 1 ≤ 4 ∧
        GivesIn CharsOutcome Rules.empty (item.rep 2) input (.ok whole) ran ∧
        whole.value = items.map Parsed.value ++ [last.value] ∧ whole.value = ['1', '2', '-'] ∧
        whole.next = place ∧ place = input.skip 2 := by
  intro item input
  have ends : EndsFrom Rules.empty input item := (endsFrom_sat _ _).or (endsFrom_pure _)
  have read : ∃ whole, Reads Rules.empty (item.rep 2) input (.ok whole) ∧ whole.value = ['1', '2', '-'] ∧
      whole.next = input.skip 2 := ⟨_, ⟨4, rfl⟩, rfl, rfl⟩
  have empty : Reads Rules.empty item (input.skip 2) (.ok ⟨'-', input.skip 2, input.skip 2⟩) := ⟨1, rfl⟩
  obtain ⟨whole, reads, value, next⟩ := read
  obtain ⟨items, place, last, answer, jobs, lastJobs, attempts, few, -, -, gives, succeeded, -⟩ :=
    rep_takes_as_many_as_there_are (σ := CharsOutcome) ends 2
  obtain rfl : answer = .ok whole := gives.gives.unique reads.gives
  obtain ⟨-, next', ⟨error, rfl, -⟩ | ⟨parsed, rfl, -, value'⟩⟩ := succeeded whole rfl
  · obtain rfl : input.skip 2 = place := next.symm.trans next'
    cases attempts.tried.unique empty
  · exact ⟨ends, items, place, parsed, whole, _, attempts, few, gives, value', value, next', next'.symm.trans next⟩

end Deferred.Grammar
