import Deferred.Parsing.Characters
import Deferred.Parsing.Combinators
import Deferred.Parsing.Token
import Deferred.Proofs.Parsing.Reads

/-! What a grammar takes from a source and where it fails, without the wording of the errors. Runs of
characters and the tokens made of them are as long as they can be, so for these there is only one text
that they can take. -/

namespace Deferred

namespace Input

theorem rest_tail (input : Input) : input.tail.rest = input.rest.tail := by
  unfold tail
  split
  next moved => simp [(advance_eq_some moved).1]
  next stopped => simp [advance_eq_none_iff.mp stopped]

theorem rest_skip (input : Input) (count : Nat) : (input.skip count).rest = input.rest.drop count := by
  induction count generalizing input with
  | zero => rfl
  | succ count ih => rw [skip, ih, rest_tail, List.drop_tail]

theorem advance_eq (input : Input) : input.advance = input.head.map fun c => (c, input.tail) := by
  unfold head tail
  cases moved : input.advance with
  | none => simp [advance_eq_none_iff.mp moved]
  | some result => simp [(advance_eq_some moved).1]

theorem rest_eq_of_head {input : Input} {c : Char} (stands : input.head = some c) :
    input.rest = c :: input.tail.rest := by
  obtain ⟨rest, same⟩ := List.head?_eq_some_iff.mp stands
  rw [rest_tail, same, List.tail_cons]

theorem singleton_prefix_rest_iff {input : Input} {c : Char} : [c] <+: input.rest ↔ input.head = some c := by
  rw [head]
  cases input.rest with
  | nil => simp
  | cons d rest => simp [eq_comm]

theorem readChars_eq_ok {input next : Input} {text : List Char} :
    input.readChars text = .ok next ↔ text <+: input.rest ∧ next = input.skip text.length := by
  induction text generalizing input with
  | nil => simp [readChars, skip, eq_comm]
  | cons expected text ih =>
    rw [readChars, advance_eq]
    cases stands : input.head with
    | none =>
      have ended : input.rest = [] := List.head?_eq_none_iff.mp stands
      simp [ended]
    | some c =>
      rw [rest_eq_of_head stands, List.cons_prefix_cons]
      by_cases same : c = expected
      case pos => simp [same, ih, skip]
      case neg => simp [same, Ne.symm same]

def skipWhile (accepts : Char → Bool) (input : Input) : Input :=
  input.skip (input.rest.takeWhile accepts).length

theorem rest_skipWhile (accepts : Char → Bool) (input : Input) :
    (input.skipWhile accepts).rest = input.rest.dropWhile accepts := by
  rw [skipWhile, rest_skip]
  calc input.rest.drop (input.rest.takeWhile accepts).length
      = (input.rest.takeWhile accepts ++ input.rest.dropWhile accepts).drop
          (input.rest.takeWhile accepts).length := by rw [List.takeWhile_append_dropWhile]
    _ = input.rest.dropWhile accepts := List.drop_left

theorem pos_tail {input : Input} {c : Char} (stands : input.head = some c) :
    input.tail.pos = input.pos + 1 := by
  have moved := input.advance_eq
  rw [stands] at moved
  exact (advance_eq_some moved).2.2.1

theorem pos_skip {input : Input} {count : Nat} (inside : count ≤ input.rest.length) :
    (input.skip count).pos = input.pos + count := by
  induction count generalizing input with
  | zero => rfl
  | succ count ih =>
    obtain ⟨c, rest, left⟩ := List.exists_cons_of_length_pos (Nat.zero_lt_of_lt inside)
    have stands : input.head = some c := by rw [head, left, List.head?_cons]
    have within : count ≤ input.tail.rest.length := by
      rw [rest_tail, List.length_tail]
      omega
    rw [skip, ih within, pos_tail stands]
    omega

theorem before_tail (input : Input) : input.Before input.tail := by
  unfold tail
  split
  next moved => exact .advance moved
  next => exact .refl input

theorem before_skip (input : Input) (count : Nat) : input.Before (input.skip count) := by
  induction count generalizing input with
  | zero => exact .refl input
  | succ count ih => exact input.before_tail.trans (ih input.tail)

theorem before_skipWhile (accepts : Char → Bool) (input : Input) :
    input.Before (input.skipWhile accepts) :=
  input.before_skip _

abbrev skipWhite [Text.Classes] (input : Input) : Input :=
  input.skipWhile Text.isWhite

end Input

namespace Grammar

variable {ρ : Type} {Value : ρ → Type} {rules : Rules Value} {α β γ : Type} {input next : Input}

/-- A grammar takes the text between two places, and gives it a value. -/
def Takes (rules : Rules Value) (grammar : Grammar Value α) (input : Input) (value : α) (next : Input) :
    Prop :=
  Reads rules grammar input (.ok ⟨value, input, next⟩)

def Fails (rules : Rules Value) (grammar : Grammar Value α) (input : Input) : Prop :=
  ∃ error, Reads rules grammar input (.error error)

theorem Reads.takes {grammar : Grammar Value α} {parsed : Parsed α}
    (reads : Reads rules grammar input (.ok parsed)) :
    Takes rules grammar input parsed.value parsed.next := by
  have start := reads.from.start
  obtain ⟨value, _, next⟩ := parsed
  subst start
  exact reads

theorem Takes.before {grammar : Grammar Value α} {value : α} (takes : Takes rules grammar input value next) :
    input.Before next :=
  takes.from.next

theorem Takes.unique {grammar : Grammar Value α} {value value' : α} {next' : Input}
    (takes : Takes rules grammar input value next) (takes' : Takes rules grammar input value' next') :
    value = value' ∧ next = next' := by
  simpa using Reads.unique takes takes'

theorem Fails.not_takes {grammar : Grammar Value α} {value : α} (fails : Fails rules grammar input) :
    ¬Takes rules grammar input value next := by
  obtain ⟨error, reads⟩ := fails
  exact fun takes => absurd (reads.unique takes) (by simp)

section Forms

theorem join_singleton (text : String) : String.join [text] = text := by
  rw [String.join_cons, String.join_nil, String.append_empty]

theorem foldl_join_eq (first : String) (rest : List String) :
    rest.foldl Joinable.join first = String.join (first :: rest) := by
  rw [String.join_eq_foldl, List.foldl_cons, String.empty_append]
  rfl

theorem join_leaves_chars (text : List Char) : String.join (leaves text) = String.ofList text := by
  induction text with
  | nil => rfl
  | cons c rest ih => rw [String.ofList_cons, ← ih, ← String.join_cons]; rfl

theorem foldl_join_chars (c : Char) (rest : List Char) :
    (leaves rest).foldl Joinable.join (String.singleton c) = String.ofList (c :: rest) :=
  (foldl_join_eq _ _).trans (join_leaves_chars (c :: rest))

theorem takes_pure {value value' : α} :
    Takes rules (.pure value) input value' next ↔ value' = value ∧ next = input := by
  simp [Takes, reads_pure, Parsed.empty]

theorem takes_sat {accepts : Char → Bool} {expected : String} {c : Char} :
    Takes rules (.sat accepts expected) input c next ↔
      input.head = some c ∧ accepts c = true ∧ next = input.tail := by
  rw [Takes, reads_sat, Input.readSat, Input.advance_eq]
  cases input.head with
  | none => simp
  | some d =>
    by_cases accepted : accepts d
    case pos =>
      simp only [Option.map_some, if_pos accepted, Except.ok.injEq, Parsed.mk.injEq, true_and,
        Option.some.injEq]
      constructor
      · intro given
        obtain ⟨rfl, rfl⟩ := given
        exact ⟨rfl, accepted, rfl⟩
      · intro given
        obtain ⟨rfl, _, rfl⟩ := given
        exact ⟨rfl, rfl⟩
    case neg =>
      simp only [Option.map_some, if_neg accepted, Option.some.injEq]
      refine ⟨fun never => absurd never (by simp), ?_⟩
      intro given
      obtain ⟨rfl, accepted', _⟩ := given
      exact absurd accepted' accepted

theorem fails_sat {accepts : Char → Bool} {expected : String} :
    Fails rules (.sat accepts expected) input ↔ ∀ c, input.head = some c → accepts c = false := by
  simp only [Fails, reads_sat, Input.readSat, Input.advance_eq]
  cases input.head with
  | none => simp
  | some c =>
    by_cases accepted : accepts c
    case pos => simp [accepted]
    case neg => simp [accepted]

theorem takes_map {f : α → β} {grammar : Grammar Value α} {value : β} :
    Takes rules (.map f grammar) input value next ↔
      ∃ inner, Takes rules grammar input inner next ∧ value = f inner := by
  rw [Takes, reads_map]
  constructor
  · intro given
    obtain ⟨inner, reads, same⟩ := given
    cases inner with
    | error error => exact absurd same (by simp [Except.map])
    | ok parsed =>
      have takes := reads.takes
      obtain ⟨rfl, _, rfl⟩ := Parsed.mk.inj (Except.ok.inj same)
      exact ⟨parsed.value, takes, rfl⟩
  · intro given
    obtain ⟨inner, takes, rfl⟩ := given
    exact ⟨_, takes, rfl⟩

theorem fails_map {f : α → β} {grammar : Grammar Value α} :
    Fails rules (.map f grammar) input ↔ Fails rules grammar input := by
  simp only [Fails, reads_map]
  constructor
  · intro given
    obtain ⟨error, inner, reads, same⟩ := given
    cases inner with
    | error error => exact ⟨error, reads⟩
    | ok parsed => exact absurd same (by simp [Except.map])
  · intro given
    obtain ⟨error, reads⟩ := given
    exact ⟨error, _, reads, rfl⟩

theorem takes_bind {first : Grammar Value α} {follow : α → Grammar Value β} {value : β} :
    Takes rules (.bind first follow) input value next ↔
      ∃ left middle, Takes rules first input left middle ∧
        Takes rules (follow left) middle value next := by
  rw [Takes, reads_bind]
  constructor
  · intro given
    rcases given with ⟨error, _, same⟩ | ⟨left, inner, reads, reads', same⟩
    · exact absurd same (by simp)
    · cases inner with
      | error error => exact absurd same (by simp [Except.map])
      | ok parsed =>
        have takes := reads'.takes
        obtain ⟨rfl, _, rfl⟩ := Parsed.mk.inj (Except.ok.inj same)
        exact ⟨left.value, left.next, reads.takes, takes⟩
  · intro given
    obtain ⟨left, middle, takes, takes'⟩ := given
    exact .inr ⟨_, _, takes, takes', rfl⟩

theorem fails_bind {first : Grammar Value α} {follow : α → Grammar Value β} :
    Fails rules (.bind first follow) input ↔ Fails rules first input ∨
      ∃ left middle, Takes rules first input left middle ∧ Fails rules (follow left) middle := by
  simp only [Fails, reads_bind]
  constructor
  · intro given
    obtain ⟨error, ⟨error', reads, _⟩ | ⟨left, inner, reads, reads', same⟩⟩ := given
    · exact .inl ⟨error', reads⟩
    · cases inner with
      | error error => exact .inr ⟨left.value, left.next, reads.takes, error, reads'⟩
      | ok parsed => exact absurd same (by simp [Except.map])
  · intro given
    rcases given with ⟨error, reads⟩ | ⟨left, middle, takes, error, reads⟩
    · exact ⟨error, .inl ⟨error, reads, rfl⟩⟩
    · exact ⟨error, .inr ⟨_, _, takes, reads, rfl⟩⟩

theorem takes_or {first second : Grammar Value α} {value : α} :
    Takes rules (.or first second) input value next ↔ Takes rules first input value next ∨
      Fails rules first input ∧ Takes rules second input value next := by
  simp only [Takes, Fails, reads_or]
  constructor
  · intro given
    rcases given with ⟨parsed, reads, same⟩ | ⟨error, inner, reads, reads', same⟩
    · exact .inl (same ▸ reads)
    · cases inner with
      | error error => cases same
      | ok parsed => exact .inr ⟨⟨error, reads⟩, Except.ok.inj same ▸ reads'⟩
  · intro given
    rcases given with reads | ⟨⟨error, reads⟩, reads'⟩
    · exact .inl ⟨_, reads, rfl⟩
    · exact .inr ⟨error, _, reads, reads', rfl⟩

theorem fails_or {first second : Grammar Value α} :
    Fails rules (.or first second) input ↔ Fails rules first input ∧ Fails rules second input := by
  simp only [Fails, reads_or]
  constructor
  · intro given
    obtain ⟨error, ⟨parsed, _, same⟩ | ⟨error', inner, reads, reads', same⟩⟩ := given
    · exact absurd same (by simp)
    · cases inner with
      | error error => exact ⟨⟨error', reads⟩, error, reads'⟩
      | ok parsed => cases same
  · intro given
    obtain ⟨⟨error, reads⟩, error', reads'⟩ := given
    exact ⟨_, .inr ⟨error, _, reads, reads', rfl⟩⟩

theorem takes_refine {grammar : Grammar Value α} {judge : α → String → Except Rejection β} {value : β} :
    Takes rules (.refine grammar judge) input value next ↔
      ∃ inner, Takes rules grammar input inner next ∧
        judge inner (Parsed.matched ⟨inner, input, next⟩) = .ok value := by
  rw [Takes, reads_refine]
  constructor
  · intro given
    obtain ⟨inner, reads, same⟩ := given
    cases inner with
    | error error => exact absurd same (by simp [Except.bind])
    | ok parsed =>
      have takes := reads.takes
      have start := reads.from.start
      obtain ⟨inner, _, behind⟩ := parsed
      subst start
      simp only [Except.bind, Parsed.judged] at same
      split at same
      next judged =>
        obtain ⟨rfl, _, rfl⟩ := Parsed.mk.inj (Except.ok.inj same)
        exact ⟨inner, takes, judged⟩
      next => exact absurd same (by simp)
  · intro given
    obtain ⟨inner, takes, judged⟩ := given
    exact ⟨_, takes, by simp [Except.bind, Parsed.judged, judged]⟩

theorem fails_refine {grammar : Grammar Value α} {judge : α → String → Except Rejection β} :
    Fails rules (.refine grammar judge) input ↔ Fails rules grammar input ∨
      ∃ inner place rejection, Takes rules grammar input inner place ∧
        judge inner (Parsed.matched ⟨inner, input, place⟩) = .error rejection := by
  simp only [Fails, reads_refine]
  constructor
  · intro given
    obtain ⟨error, inner, reads, same⟩ := given
    cases inner with
    | error error => exact .inl ⟨error, reads⟩
    | ok parsed =>
      have takes := reads.takes
      have start := reads.from.start
      obtain ⟨inner, _, place⟩ := parsed
      subst start
      simp only [Except.bind, Parsed.judged] at same
      split at same
      next => exact absurd same (by simp)
      next rejection judged => exact .inr ⟨inner, place, rejection, takes, judged⟩
  · intro given
    rcases given with ⟨error, reads⟩ | ⟨inner, place, rejection, takes, judged⟩
    · exact ⟨error, _, reads, rfl⟩
    · exact ⟨_, _, takes, by simp [Except.bind, Parsed.judged, judged]; rfl⟩

theorem takes_joined {grammar : Grammar Value (List Char)} {value : String} :
    Takes rules grammar.joined input value next ↔
      ∃ c rest, Takes rules grammar input (c :: rest) next ∧ value = String.ofList (c :: rest) := by
  simp only [joined, foldLeaves, takes_refine]
  constructor
  · intro given
    obtain ⟨_ | ⟨c, rest⟩, takes, folded⟩ := given
    · exact absurd folded (by simp [leaves])
    · exact ⟨c, rest, takes, (Except.ok.inj folded).symm.trans (foldl_join_chars c rest)⟩
  · intro given
    obtain ⟨c, rest, takes, rfl⟩ := given
    exact ⟨c :: rest, takes, congrArg Except.ok (foldl_join_chars c rest)⟩

theorem takes_rep {item : Grammar Value α} {least : Nat} {values : List α} :
    Takes rules (.rep item least) input values next ↔
      ∃ failure, Collects (Reads rules item) input ⟨values, next, failure⟩ ∧
        (least ≤ values.length ∨ failure = none) := by
  rw [Takes, reads_rep]
  constructor
  · intro given
    obtain ⟨⟨values, next, failure⟩, collects, same⟩ := given
    cases failure with
    | none =>
      obtain ⟨rfl, -, rfl⟩ := Parsed.mk.inj (Except.ok.inj same)
      exact ⟨none, collects, .inr rfl⟩
    | some error =>
      simp only [Items.atLeast] at same
      split at same
      next enough =>
        obtain ⟨rfl, -, rfl⟩ := Parsed.mk.inj (Except.ok.inj same)
        exact ⟨some error, collects, .inl enough⟩
      next => cases same
  · intro given
    obtain ⟨failure, collects, enough⟩ := given
    refine ⟨_, collects, ?_⟩
    cases failure with
    | none => rfl
    | some error => exact (if_pos (enough.resolve_right (by simp))).symm

theorem Fails.many1 {item : Grammar Value α} (fails : Fails rules item input) :
    Fails rules item.many1 input := by
  obtain ⟨error, reads⟩ := fails
  exact ⟨error, reads_rep.mpr ⟨_, .failed reads, rfl⟩⟩

theorem takes_chain {first : Grammar Value α} {more : Grammar Value β} {combine : α → List β → γ}
    {value : γ} :
    Takes rules (.chain first more combine none) input value next ↔
      ∃ head middle items, Takes rules first input head middle ∧
        Collects (Reads rules more) middle items ∧ value = combine head items.values ∧
          next = items.next := by
  rw [Takes, reads_chain]
  constructor
  · intro given
    rcases given with ⟨error, _, same⟩ | ⟨parsed, items, reads, collects, same⟩
    · exact absurd same (by simp)
    · obtain ⟨rfl, _, rfl⟩ := Parsed.mk.inj (Except.ok.inj same)
      exact ⟨parsed.value, parsed.next, items, reads.takes, collects, rfl, rfl⟩
  · intro given
    obtain ⟨head, middle, items, takes, collects, rfl, rfl⟩ := given
    exact .inr ⟨_, items, takes, collects, rfl⟩

theorem takes_seq {first : Grammar Value α} {second : Grammar Value β} {pair : α × β} :
    Takes rules (first.seq second) input pair next ↔
      ∃ middle, Takes rules first input pair.1 middle ∧ Takes rules second middle pair.2 next := by
  simp only [seq, takes_bind, takes_map]
  constructor
  · intro given
    obtain ⟨_, middle, takes, _, takes', rfl⟩ := given
    exact ⟨middle, takes, takes'⟩
  · intro given
    obtain ⟨middle, takes, takes'⟩ := given
    exact ⟨_, middle, takes, _, takes', rfl⟩

theorem fails_seq {first : Grammar Value α} {second : Grammar Value β} :
    Fails rules (first.seq second) input ↔ Fails rules first input ∨
      ∃ left middle, Takes rules first input left middle ∧ Fails rules second middle := by
  simp only [seq, fails_bind, fails_map]

theorem fails_chain {first : Grammar Value α} {more : Grammar Value β}
    {combine : α → List β → γ} :
    Fails rules (.chain first more combine none) input ↔ Fails rules first input := by
  simp only [Fails, reads_chain]
  constructor
  · intro given
    obtain ⟨error, ⟨error', reads, _⟩ | ⟨_, _, _, _, same⟩⟩ := given
    · exact ⟨error', reads⟩
    · exact absurd same (by simp)
  · intro given
    obtain ⟨error, reads⟩ := given
    exact ⟨error, .inl ⟨error, reads, rfl⟩⟩

theorem takes_eof {value : Unit} : Takes rules .eof input value next ↔ input.rest = [] ∧ next = input := by
  simp only [Takes, reads_eof, Input.readEof, Input.atEnd, List.isEmpty_iff]
  by_cases ended : input.rest = []
  case pos => simp [ended, Parsed.empty, eq_comm]
  case neg => simp [ended]

theorem takes_ref {rule : ρ} {body : Grammar Value (Value rule)} (defined : rules rule = some body)
    {value : Value rule} :
    Takes rules (.ref rule) input value next ↔ Takes rules body input value next := by
  simp [Takes, reads_ref, defined]

end Forms

section Runs

theorem takeWhile_append_of_stops {accepts : Char → Bool} {run rest : List Char}
    (each : ∀ c ∈ run, accepts c = true) (stops : ∀ c, rest.head? = some c → accepts c = false) :
    (run ++ rest).takeWhile accepts = run ∧ (run ++ rest).dropWhile accepts = rest := by
  rw [List.takeWhile_append_of_pos each, List.dropWhile_append_of_pos each]
  cases rest with
  | nil => exact ⟨List.append_nil run, rfl⟩
  | cons c rest =>
    have other := stops c rfl
    simp [other]

variable {accepts : Char → Bool} {expected : String}

theorem collects_sat : ∃ error, Collects (Reads rules (.sat accepts expected)) input
    ⟨input.rest.takeWhile accepts, input.skipWhile accepts, some error⟩ := by
  induction left : input.rest generalizing input with
  | nil =>
    have fails : Fails rules (.sat accepts expected) input := fails_sat.mpr (by simp [Input.head, left])
    obtain ⟨error, reads⟩ := fails
    refine ⟨error, ?_⟩
    simp only [Input.skipWhile, left]
    exact .failed reads
  | cons c rest ih =>
    have head : input.head = some c := by simp [Input.head, left]
    cases accepted : accepts c with
    | true =>
      have takes : Takes rules (.sat accepts expected) input c input.tail :=
        takes_sat.mpr ⟨head, accepted, rfl⟩
      have behind : input.tail.rest = rest := by rw [Input.rest_tail, left, List.tail_cons]
      have further : input.pos < input.tail.pos := Input.pos_tail head ▸ Nat.lt_succ_self _
      obtain ⟨error, collects⟩ := ih behind
      refine ⟨error, ?_⟩
      have whole := Collects.more takes further collects
      simp only [Input.skipWhile, behind] at whole
      simp only [Input.skipWhile, left, List.takeWhile_cons, accepted, if_true, List.length_cons, Input.skip]
      exact whole
    | false =>
      have fails : Fails rules (.sat accepts expected) input :=
        fails_sat.mpr fun d same => Option.some.inj (head.symm.trans same) ▸ accepted
      obtain ⟨error, reads⟩ := fails
      refine ⟨error, ?_⟩
      simp only [Input.skipWhile, left, List.takeWhile_cons, accepted, Bool.false_eq_true, if_false]
      exact .failed reads

theorem takes_run {least : Nat} (enough : least ≤ (input.rest.takeWhile accepts).length) :
    Takes rules (.rep (.sat accepts expected) least) input (input.rest.takeWhile accepts)
      (input.skipWhile accepts) := by
  obtain ⟨error, collects⟩ := @collects_sat _ _ rules input accepts expected
  exact takes_rep.mpr ⟨some error, collects, .inl enough⟩

theorem takeWhile_eq_nil_of_head (other : ∀ c, input.head = some c → accepts c = false) :
    input.rest.takeWhile accepts = [] := by
  cases left : input.rest with
  | nil => rfl
  | cons c rest =>
    rw [List.takeWhile_cons, other c (by rw [Input.head, left, List.head?_cons])]
    rfl

theorem fails_run {least : Nat} (short : (input.rest.takeWhile accepts).length < least) :
    Fails rules (.rep (.sat accepts expected) least) input := by
  obtain ⟨error, collects⟩ := @collects_sat _ _ rules input accepts expected
  refine ⟨error, reads_rep.mpr ⟨_, collects, ?_⟩⟩
  simp only [Items.atLeast, if_neg (Nat.not_le.mpr short)]

theorem takes_rep_sat {least : Nat} {value : List Char} :
    Takes rules (.rep (.sat accepts expected) least) input value next ↔
      value = input.rest.takeWhile accepts ∧ next = input.skipWhile accepts ∧ least ≤ value.length := by
  constructor
  · intro takes
    rcases Nat.lt_or_ge (input.rest.takeWhile accepts).length least with short | enough
    · exact absurd takes (fails_run short).not_takes
    · obtain ⟨rfl, rfl⟩ := takes.unique (takes_run enough)
      exact ⟨rfl, rfl, enough⟩
  · intro given
    obtain ⟨rfl, rfl, enough⟩ := given
    exact takes_run enough

theorem fails_rep_sat {least : Nat} :
    Fails rules (.rep (.sat accepts expected) least) input ↔
      (input.rest.takeWhile accepts).length < least := by
  refine ⟨fun fails => ?_, fails_run⟩
  rcases Nat.lt_or_ge (input.rest.takeWhile accepts).length least with short | enough
  · exact short
  · exact absurd (takes_run enough) fails.not_takes

theorem takes_spaces [Text.Classes] {value : List Char} :
    Takes rules spaces input value next ↔
      value = input.rest.takeWhile Text.isWhite ∧ next = input.skipWhite := by
  simp only [spaces, many, whitespace, takes_rep_sat, Nat.zero_le, and_true]

theorem not_fails_spaces [Text.Classes] : ¬Fails rules spaces input := by
  simp only [spaces, many, whitespace, fails_rep_sat, Nat.not_lt_zero, not_false_iff]

theorem takes_token [Text.Classes] {grammar : Grammar Value α} {value : α} :
    Takes rules grammar.token input value next ↔
      ∃ middle, Takes rules grammar input.skipWhite value middle ∧ next = middle.skipWhite := by
  simp only [token, seqRight, seqLeft, takes_bind, takes_map, takes_spaces]
  constructor
  · intro given
    obtain ⟨_, _, ⟨rfl, rfl⟩, left, middle, takes, _, ⟨rfl, rfl⟩, rfl⟩ := given
    exact ⟨middle, takes, rfl⟩
  · intro given
    obtain ⟨middle, takes, rfl⟩ := given
    exact ⟨_, _, ⟨rfl, rfl⟩, value, middle, takes, _, ⟨rfl, rfl⟩, rfl⟩

theorem fails_token [Text.Classes] {grammar : Grammar Value α} :
    Fails rules grammar.token input ↔ Fails rules grammar input.skipWhite := by
  simp only [token, seqRight, seqLeft, fails_bind, fails_map, takes_spaces, not_fails_spaces, false_or]
  constructor
  · intro given
    obtain ⟨_, _, ⟨rfl, rfl⟩, fails | ⟨_, _, _, never⟩⟩ := given
    · exact fails
    · exact absurd never not_false
  · exact fun fails => ⟨_, _, ⟨rfl, rfl⟩, .inl fails⟩

theorem takes_word [Text.Classes] {value : String} : Takes rules word input value next ↔
    ∃ c, input.head = some c ∧ Text.isLetter c = true ∧ next = input.tail.skipWhile Text.isAlphanumeric ∧
      value = String.ofList (c :: input.tail.rest.takeWhile Text.isAlphanumeric) := by
  have folded : ∀ (c : Char) (rest : List Char),
      (match leaves (c, rest) with
        | first :: rest => Except.ok (rest.foldl Joinable.join first)
        | [] => Except.error (⟨"a non-empty sequence", "an empty sequence"⟩ : Rejection)) =
        Except.ok (String.ofList (c :: rest)) :=
    fun c rest => congrArg Except.ok (foldl_join_chars c rest)
  simp only [word, joined, foldLeaves, seq, many, letter, alphanumeric, takes_refine, takes_bind, takes_map, takes_sat,
    takes_rep_sat]
  constructor
  · intro given
    obtain ⟨_, ⟨c, middle, ⟨stands, letter, rfl⟩, rest, ⟨rfl, rfl, _⟩, rfl⟩, joins⟩ := given
    exact ⟨c, stands, letter, rfl, (Except.ok.inj ((folded c _).symm.trans joins)).symm⟩
  · intro given
    obtain ⟨c, stands, letter, rfl, rfl⟩ := given
    exact ⟨_, ⟨c, _, ⟨stands, letter, rfl⟩, _, ⟨rfl, rfl, Nat.zero_le _⟩, rfl⟩, folded c _⟩

theorem takes_literal {text : List Char} {value : String} :
    Takes rules (.literal text) input value next ↔
      text <+: input.rest ∧ next = input.skip text.length ∧ value = String.ofList text := by
  rw [Takes, reads_literal, Input.readLiteral, ← and_assoc, ← Input.readChars_eq_ok]
  cases input.readChars text with
  | error error => simp [Except.map]
  | ok place => simp [Except.map, eq_comm, and_comm]

theorem fails_literal {text : List Char} :
    Fails rules (.literal text) input ↔ ¬text <+: input.rest := by
  have read := @Input.readChars_eq_ok input (input.skip text.length) text
  simp only [Fails, reads_literal, Input.readLiteral]
  cases found : input.readChars text with
  | error error =>
    simp only [found, reduceCtorEq, and_true, false_iff] at read
    simp [Except.map, read]
  | ok place => simp [Except.map, (Input.readChars_eq_ok.mp found).1]

theorem takes_literal_singleton {c : Char} {value : String} :
    Takes rules (.literal [c]) input value next ↔
      input.head = some c ∧ next = input.tail ∧ value = String.ofList [c] := by
  rw [takes_literal, Input.singleton_prefix_rest_iff]
  rfl

theorem fails_literal_singleton {c : Char} :
    Fails rules (.literal [c]) input ↔ input.head ≠ some c := by
  rw [fails_literal, Input.singleton_prefix_rest_iff]

theorem takes_symbol [Text.Classes] {text : String} {c : Char} (single : text.toList = [c]) {value : String} :
    Takes rules (symbol text) input value next ↔ input.skipWhite.head = some c ∧
      next = input.skipWhite.tail.skipWhite ∧ value = String.ofList [c] := by
  rw [symbol, takes_token, single]
  simp only [takes_literal_singleton]
  constructor
  · intro given
    obtain ⟨_, ⟨stands, rfl, rfl⟩, rfl⟩ := given
    exact ⟨stands, rfl, rfl⟩
  · intro given
    obtain ⟨stands, rfl, rfl⟩ := given
    exact ⟨_, ⟨stands, rfl, rfl⟩, rfl⟩

theorem fails_symbol [Text.Classes] {text : String} {c : Char} (single : text.toList = [c]) :
    Fails rules (symbol text) input ↔ input.skipWhite.head ≠ some c := by
  rw [symbol, fails_token, single, fails_literal_singleton]

end Runs

end Grammar

end Deferred
