import Deferred.Proofs.Parsing.Separated

/-! Ordered choice. However a choice between several grammars is bracketed, they are tried in their order, each from
the same place, and the first one that matches decides. If none does, the shape of the error shows the brackets but
its leaves do not, and what is reported depends on the leaves only. What the alternatives have in common may be read
before the choice; otherwise it is read again for each of them, and fails as often, which is not reported either. -/

namespace Deferred

namespace ParseError

variable {likely error error' : ParseError}

theorem leaves_ne_nil (error : ParseError) : error.leaves ≠ [] := by
  induction error with
  | mismatch | undefined => exact List.cons_ne_nil _ _
  | alternatives first second ihFirst _ => exact fun none => ihFirst (List.append_eq_nil_iff.mp none).1

theorem position_eq_foldr (error : ParseError) : error.position = (error.leaves.map position).foldr max 0 := by
  have joined : ∀ left right : List Nat, (left ++ right).foldr max 0 = max (left.foldr max 0) (right.foldr max 0) := by
    intro left right
    induction left with
    | nil => simp
    | cons first rest ih => rw [List.cons_append, List.foldr_cons, List.foldr_cons, ih, Nat.max_assoc]
  induction error with
  | mismatch | undefined => exact (Nat.max_zero _).symm
  | alternatives first second ihFirst ihSecond =>
    rw [position, leaves, List.map_append, joined, ← ihFirst, ← ihSecond]

theorem furthest_append (likely : ParseError) (left right : List ParseError) :
    furthest likely (left ++ right) = furthest (furthest likely left) right := by
  induction left generalizing likely with
  | nil => rfl
  | cons leaf rest ih =>
    rw [List.cons_append, furthest, furthest]
    split
    next => exact ih leaf
    next => exact ih likely

theorem furthest_eq_self {leaves : List ParseError} (near : ∀ leaf ∈ leaves, leaf.position ≤ likely.position) :
    furthest likely leaves = likely := by
  induction leaves with
  | nil => rfl
  | cons leaf rest ih =>
    rw [furthest, if_neg (Nat.not_lt.mpr (near leaf List.mem_cons_self))]
    exact ih fun leaf member => near leaf (List.mem_cons_of_mem _ member)

theorem position_le_furthest (likely : ParseError) (leaves : List ParseError) :
    ∀ leaf ∈ likely :: leaves, leaf.position ≤ (furthest likely leaves).position := by
  induction leaves generalizing likely with
  | nil => simp [furthest]
  | cons next rest ih =>
    intro leaf member
    rw [furthest]
    split
    next further =>
      have reached := ih next next List.mem_cons_self
      rcases List.mem_cons.mp member with rfl | member
      · omega
      · exact ih next leaf member
    next near =>
      have reached := ih likely likely List.mem_cons_self
      rcases List.mem_cons.mp member with rfl | member
      · exact reached
      · rcases List.mem_cons.mp member with rfl | member
        · omega
        · exact ih likely leaf (List.mem_cons_of_mem _ member)

def report (error : ParseError) : Nat × ParseError :=
  (error.position, error.mostLikely)

theorem mostLikely_eq_of_leaves {leaf : ParseError} {rest : List ParseError} (same : error.leaves = leaf :: rest) :
    error.mostLikely = furthest leaf rest := by
  rw [mostLikely, same]

/-- The report depends on the leaves only. -/
theorem report_eq_of_leaves (same : error.leaves = error'.leaves) : error.report = error'.report := by
  obtain ⟨leaf, rest, leaves⟩ := List.exists_cons_of_ne_nil error.leaves_ne_nil
  rw [report, report, position_eq_foldr, position_eq_foldr error', mostLikely_eq_of_leaves leaves,
    mostLikely_eq_of_leaves (same.symm.trans leaves), same]

theorem report_alternatives_self (error : ParseError) : (alternatives error error).report = error.report := by
  obtain ⟨leaf, rest, leaves⟩ := List.exists_cons_of_ne_nil error.leaves_ne_nil
  have twice : (alternatives error error).leaves = leaf :: (rest ++ leaf :: rest) := by
    rw [ParseError.leaves, leaves, List.cons_append]
  have likely : (alternatives error error).mostLikely = error.mostLikely := by
    rw [mostLikely_eq_of_leaves twice, mostLikely_eq_of_leaves leaves, furthest_append,
      furthest_eq_self (position_le_furthest leaf rest)]
  rw [report, report, likely, position, Nat.max_self]

end ParseError

namespace Grammar

variable {ρ : Type} {Value : ρ → Type} {rules : Rules Value} {σ α β : Type} {input : Input}

section Brackets

inductive Brackets : List (Grammar Value α) → Grammar Value α → Prop
  | one (grammar) : Brackets [grammar] grammar
  | or {left right first second} (brackets : Brackets left first) (brackets' : Brackets right second) :
      Brackets (left ++ right) (.or first second)

theorem brackets_choice (expected : String) {grammars : List (Grammar Value α)} (some : grammars ≠ []) :
    Brackets grammars (choice grammars expected) := by
  induction grammars with
  | nil => exact absurd rfl some
  | cons first rest ih =>
    cases rest with
    | nil => exact .one first
    | cons second rest => exact .or (.one first) (ih (List.cons_ne_nil _ _))

/-- What comes of trying grammars one after another: the outcome of the first one that matches, or else the errors of
all of them. -/
inductive Tries (gives : Grammar Value α → Except ParseError (Parsed α) → Prop) :
    List (Grammar Value α) → Except (List ParseError) (Parsed α) → Prop
  | none : Tries gives [] (.error [])
  | matched {grammar rest parsed} (read : gives grammar (.ok parsed)) : Tries gives (grammar :: rest) (.ok parsed)
  | failed {grammar rest error tried outcome} (failed : gives grammar (.error error)) (tries : Tries gives rest tried)
      (same : outcome = tried.mapError (error :: ·)) : Tries gives (grammar :: rest) outcome

variable {gives : Grammar Value α → Except ParseError (Parsed α) → Prop}

theorem tries_append_iff {left right : List (Grammar Value α)} {tried : Except (List ParseError) (Parsed α)} :
    Tries gives (left ++ right) tried ↔
      (∃ parsed, Tries gives left (.ok parsed) ∧ tried = .ok parsed) ∨
        ∃ errors behind, Tries gives left (.error errors) ∧ Tries gives right behind ∧
          tried = behind.mapError (errors ++ ·) := by
  induction left generalizing tried with
  | nil =>
    constructor
    · exact fun tries => .inr ⟨[], tried, .none, tries, by cases tried <;> rfl⟩
    · intro given
      rcases given with ⟨_, ⟨⟩, -⟩ | ⟨_, behind, ⟨⟩, tries, rfl⟩
      cases behind <;> exact tries
  | cons grammar left ih =>
    constructor
    · intro tries
      cases tries with
      | matched read => exact .inl ⟨_, .matched read, rfl⟩
      | failed failed tries same =>
        rcases ih.mp tries with ⟨parsed, first, rfl⟩ | ⟨errors, behind, first, second, rfl⟩
        · exact .inl ⟨parsed, .failed failed first rfl, same⟩
        · exact .inr ⟨_, behind, .failed failed first rfl, second, by cases behind <;> exact same⟩
    · intro given
      rcases given with ⟨parsed, tries, rfl⟩ | ⟨errors, behind, tries, second, rfl⟩
      · cases tries with
        | matched read => exact .matched read
        | @failed _ _ _ tried _ failed first same =>
          cases tried with
          | error others => cases same
          | ok other => exact .failed failed (ih.mpr (.inl ⟨other, first, rfl⟩)) same
      · cases tries with
        | @failed _ _ error tried _ failed first same =>
          cases tried with
          | ok other => cases same
          | error others =>
            obtain rfl := Except.error.inj same
            have rest := ih.mpr (.inr ⟨others, behind, first, second, rfl⟩)
            exact .failed failed rest (by cases behind <;> rfl)

inductive Shows : Except ParseError (Parsed α) → Except (List ParseError) (Parsed α) → Prop
  | ok (parsed) : Shows (.ok parsed) (.ok parsed)
  | error {error errors} (leaves : error.leaves = errors.flatMap ParseError.leaves) :
      Shows (.error error) (.error errors)

theorem Shows.single (error : ParseError) : Shows (.error error : Except ParseError (Parsed α)) (.error [error]) :=
  .error (List.append_nil _).symm

theorem Shows.alternatives {error : ParseError} {errors : List ParseError} {inner : Except ParseError (Parsed α)}
    {behind : Except (List ParseError) (Parsed α)} (first : error.leaves = errors.flatMap ParseError.leaves)
    (shows : Shows inner behind) :
    Shows (inner.mapError (.alternatives error)) (behind.mapError (errors ++ ·)) := by
  cases shows with
  | ok parsed => exact .ok parsed
  | error second =>
    refine .error ?_
    rw [ParseError.leaves, first, second, List.flatMap_append]

theorem Brackets.exists_tries {grammars : List (Grammar Value α)} {grammar : Grammar Value α}
    (brackets : Brackets grammars grammar) {answer : Except ParseError (Parsed α)}
    (reads : Reads rules grammar input answer) :
    ∃ tried, Tries (fun grammar => Reads rules grammar input) grammars tried ∧ Shows answer tried := by
  induction brackets generalizing answer with
  | one grammar =>
    cases answer with
    | ok parsed => exact ⟨_, .matched reads, .ok parsed⟩
    | error error => exact ⟨_, .failed reads .none rfl, .single error⟩
  | or _ _ ihFirst ihSecond =>
    rcases reads_or.mp reads with ⟨parsed, read, rfl⟩ | ⟨error, inner, failed, follows, rfl⟩
    · obtain ⟨_, tries, ⟨⟩⟩ := ihFirst read
      exact ⟨_, tries_append_iff.mpr (.inl ⟨parsed, tries, rfl⟩), .ok parsed⟩
    · obtain ⟨_, first, shown⟩ := ihFirst failed
      obtain ⟨behind, second, shows⟩ := ihSecond follows
      cases shown with
      | error known =>
        exact ⟨_, tries_append_iff.mpr (.inr ⟨_, behind, first, second, rfl⟩), shows.alternatives known⟩

theorem Brackets.exists_reads {grammars : List (Grammar Value α)} {grammar : Grammar Value α}
    (brackets : Brackets grammars grammar) {tried : Except (List ParseError) (Parsed α)}
    (tries : Tries (fun grammar => Reads rules grammar input) grammars tried) :
    ∃ answer, Reads rules grammar input answer ∧ Shows answer tried := by
  induction brackets generalizing tried with
  | one grammar =>
    cases tries with
    | @matched _ _ parsed read => exact ⟨_, read, .ok parsed⟩
    | @failed _ _ error _ _ failed tries same =>
      cases tries
      exact ⟨_, failed, same ▸ .single error⟩
  | or _ _ ihFirst ihSecond =>
    rcases tries_append_iff.mp tries with ⟨parsed, first, rfl⟩ | ⟨errors, behind, first, second, rfl⟩
    · obtain ⟨_, reads, ⟨⟩⟩ := ihFirst first
      exact ⟨_, reads_or.mpr (.inl ⟨parsed, reads, rfl⟩), .ok parsed⟩
    · obtain ⟨_, reads, shown⟩ := ihFirst first
      obtain ⟨inner, follows, shows⟩ := ihSecond second
      cases shown with
      | error known => exact ⟨_, reads_or.mpr (.inr ⟨_, inner, reads, follows, rfl⟩), shows.alternatives known⟩

theorem Shows.mapError_leaves {answer answer' : Except ParseError (Parsed α)}
    {tried : Except (List ParseError) (Parsed α)} (shows : Shows answer tried) (shows' : Shows answer' tried) :
    answer.mapError ParseError.leaves = answer'.mapError ParseError.leaves := by
  cases shows with
  | ok parsed =>
    cases shows'
    rfl
  | error leaves =>
    cases shows' with
    | error leaves' => exact congrArg Except.error (leaves.trans leaves'.symm)

theorem mapError_report_of_leaves {answer answer' : Except ParseError (Parsed α)}
    (same : answer.mapError ParseError.leaves = answer'.mapError ParseError.leaves) :
    answer.mapError ParseError.report = answer'.mapError ParseError.report := by
  cases answer with
  | ok parsed =>
    cases answer' with
    | ok other => exact congrArg Except.ok (Except.ok.inj same)
    | error error => cases same
  | error error =>
    cases answer' with
    | ok other => cases same
    | error error' => exact congrArg Except.error (ParseError.report_eq_of_leaves (Except.error.inj same))

end Brackets

section Factoring

variable {before : Grammar Value α} {first second : Grammar Value β} {error : ParseError} {left : Parsed α}

theorem reads_seq_of_error {answer : Except ParseError (Parsed (α × β))}
    (failed : Reads rules before input (.error error)) :
    Reads rules (before.seq first) input answer ↔ answer = .error error := by
  rw [reads_seq]
  constructor
  · intro given
    rcases given with ⟨error', failed', rfl⟩ | ⟨left, _, head, -, -⟩
    · rw [Except.error.inj (failed'.unique failed)]
    · cases failed.unique head
  · exact fun same => .inl ⟨error, failed, same⟩

theorem reads_seq_of_ok {answer : Except ParseError (Parsed (α × β))} (head : Reads rules before input (.ok left)) :
    Reads rules (before.seq first) input answer ↔
      ∃ inner, Reads rules first left.next inner ∧
        answer = inner.map fun right => ⟨(left.value, right.value), input, right.next⟩ := by
  rw [reads_seq]
  constructor
  · intro given
    rcases given with ⟨error, failed, -⟩ | ⟨left', inner, head', tail, rfl⟩
    · cases failed.unique head
    · obtain rfl := Except.ok.inj (head.unique head')
      exact ⟨inner, tail, rfl⟩
  · intro given
    obtain ⟨inner, tail, rfl⟩ := given
    exact .inr ⟨left, inner, head, tail, rfl⟩

/-- Behind a text that was read, it makes no difference whether the choice is made before or behind it. -/
theorem reads_factored_iff {answer : Except ParseError (Parsed (α × β))} (head : Reads rules before input (.ok left)) :
    Reads rules (before.seq (first.or second)) input answer ↔
      Reads rules ((before.seq first).or (before.seq second)) input answer := by
  simp only [reads_or, reads_seq_of_ok head]
  constructor
  · intro given
    obtain ⟨_, ⟨right, read, rfl⟩ | ⟨error, inner, failed, follows, rfl⟩, rfl⟩ := given
    · exact .inl ⟨_, ⟨_, read, rfl⟩, rfl⟩
    · exact .inr ⟨error, _, ⟨_, failed, rfl⟩, ⟨inner, follows, rfl⟩, by cases inner <;> rfl⟩
  · intro given
    rcases given with ⟨whole, ⟨inner, read, same⟩, rfl⟩ | ⟨error, _, ⟨inner, failed, same⟩, ⟨other, follows, rfl⟩, rfl⟩
    · cases inner with
      | error error => cases same
      | ok right => exact ⟨_, .inl ⟨right, read, rfl⟩, same⟩
    · cases inner with
      | ok right => cases same
      | error error' =>
        obtain rfl := Except.error.inj same
        exact ⟨_, .inr ⟨error, other, failed, follows, rfl⟩, by cases other <;> rfl⟩

/-- If the text in front cannot be read, it is tried for each alternative, and fails for each in the same way. -/
theorem reads_or_seq_of_error {answer : Except ParseError (Parsed (α × β))}
    (failed : Reads rules before input (.error error)) :
    Reads rules ((before.seq first).or (before.seq second)) input answer ↔
      answer = .error (.alternatives error error) := by
  simp only [reads_or, reads_seq_of_error failed]
  constructor
  · intro given
    rcases given with ⟨_, never, -⟩ | ⟨_, _, same, rfl, rfl⟩
    · cases never
    · exact Except.error.inj same ▸ rfl
  · intro given
    obtain rfl := given
    exact .inr ⟨error, _, rfl, rfl, rfl⟩

theorem Reads.exists_first {answer : Except ParseError (Parsed (α × β))}
    (reads : Reads rules (before.seq first) input answer) : ∃ answer', Reads rules before input answer' := by
  rcases reads_seq.mp reads with ⟨error, failed, -⟩ | ⟨left, _, head, -, -⟩
  · exact ⟨_, failed⟩
  · exact ⟨_, head⟩

/-- What the alternatives have in common may be read before the choice or for each of them. -/
theorem exists_reads_factored :
    (∀ answer, Reads rules (before.seq (first.or second)) input answer →
      ∃ answer', Reads rules ((before.seq first).or (before.seq second)) input answer' ∧
        answer.mapError ParseError.report = answer'.mapError ParseError.report) ∧
    ∀ answer, Reads rules ((before.seq first).or (before.seq second)) input answer →
      ∃ answer', Reads rules (before.seq (first.or second)) input answer' ∧
        answer.mapError ParseError.report = answer'.mapError ParseError.report := by
  have twice : ∀ error : ParseError,
      (Except.error error : Except ParseError (Parsed (α × β))).mapError ParseError.report =
        (Except.error (.alternatives error error)).mapError ParseError.report :=
    fun error => congrArg Except.error error.report_alternatives_self.symm
  constructor
  · intro answer reads
    obtain ⟨outcome, start⟩ := reads.exists_first
    cases outcome with
    | ok left => exact ⟨answer, (reads_factored_iff start).mp reads, rfl⟩
    | error error =>
      obtain rfl := (reads_seq_of_error start).mp reads
      exact ⟨_, (reads_or_seq_of_error start).mpr rfl, twice error⟩
  · intro answer reads
    have begun : ∃ outcome, Reads rules before input outcome := by
      rcases reads_or.mp reads with ⟨_, read, -⟩ | ⟨_, _, failed, -, -⟩
      · exact read.exists_first
      · exact failed.exists_first
    obtain ⟨outcome, start⟩ := begun
    cases outcome with
    | ok left => exact ⟨answer, (reads_factored_iff start).mpr reads, rfl⟩
    | error error =>
      obtain rfl := (reads_or_seq_of_error start).mp reads
      exact ⟨_, (reads_seq_of_error start).mpr rfl, (twice error).symm⟩

end Factoring

/-- The laws of ordered choice. Whatever brackets a choice between several grammars has, it comes to what comes of
trying them in their order, each from the place where the choice starts: to the outcome of the first one that
matches, or else to an error with the leaves of all their errors, in the same order. So all brackets have the same
successes, and errors with the same leaves, the same position and the same leaf to report; and a list of alternatives
is one way to set them. A text that all alternatives have in front may be read once before the choice: this has the
same successes too, and errors with the same position and the same leaf to report. -/
theorem choice_decided_in_order (rules : Rules Value) :
    (∀ {α σ : Type} [Storable (Except ParseError (Parsed α)) σ] (grammars : List (Grammar Value α))
      (grammar : Grammar Value α) (input : Input), Brackets grammars grammar →
        (∀ answer, Gives σ rules grammar input answer →
          ∃ tried, Tries (fun grammar => Gives σ rules grammar input) grammars tried ∧ Shows answer tried) ∧
        (∀ tried, Tries (fun grammar => Gives σ rules grammar input) grammars tried →
          ∃ answer, Gives σ rules grammar input answer ∧ Shows answer tried) ∧
        ∀ other, Brackets grammars other → ∀ answer, Gives σ rules grammar input answer →
          ∃ answer', Gives σ rules other input answer' ∧
            answer.mapError ParseError.leaves = answer'.mapError ParseError.leaves ∧
            answer.mapError ParseError.report = answer'.mapError ParseError.report) ∧
    (∀ {α : Type} (first second third : Grammar Value α) (expected : String),
      Brackets [first, second, third] ((first.or second).or third) ∧
      Brackets [first, second, third] (first.or (second.or third)) ∧
      Brackets [first, second, third] (choice [first, second, third] expected)) ∧
    (∀ {α : Type} (grammars : List (Grammar Value α)) (expected : String), grammars ≠ [] →
      Brackets grammars (choice grammars expected)) ∧
    ∀ {α β σ : Type} [Storable (Except ParseError (Parsed (α × β))) σ] (before : Grammar Value α)
      (first second : Grammar Value β) (input : Input),
      (∀ answer, Gives σ rules (before.seq (first.or second)) input answer →
        ∃ answer', Gives σ rules ((before.seq first).or (before.seq second)) input answer' ∧
          answer.mapError ParseError.report = answer'.mapError ParseError.report) ∧
      ∀ answer, Gives σ rules ((before.seq first).or (before.seq second)) input answer →
        ∃ answer', Gives σ rules (before.seq (first.or second)) input answer' ∧
          answer.mapError ParseError.report = answer'.mapError ParseError.report := by
  simp only [gives_eq_reads]
  refine ⟨fun grammars grammar input brackets => ⟨fun answer => brackets.exists_tries,
      fun tried => brackets.exists_reads, fun other brackets' answer reads => ?_⟩,
    fun first second third expected => ⟨.or (.or (.one first) (.one second)) (.one third),
      .or (.one first) (.or (.one second) (.one third)), brackets_choice expected (List.cons_ne_nil _ _)⟩,
    fun grammars expected some => brackets_choice expected some,
    fun before first second input => exists_reads_factored⟩
  obtain ⟨tried, tries, shows⟩ := brackets.exists_tries reads
  obtain ⟨answer', reads', shows'⟩ := brackets'.exists_reads tries
  have same := shows.mapError_leaves shows'
  exact ⟨answer', reads', same, mapError_report_of_leaves same⟩

/-- Three words that all fail, two of them behind their first letter, and a letter that is read before a choice or
for each alternative. -/
theorem choice_decided_in_order_words :
    let word (text : String) : Grammar (fun _ : Unit => Unit) String := .literal text.toList
    let input : Input := .ofString "sum"
    let blamed : ParseError := .mismatch "'i'" "'u'" 1
    (∃ error, Gives (Except ParseError (Parsed String)) Rules.empty
      (((word "let").or (word "sin")).or (word "set")) input (.error error) ∧ error.report = (1, blamed)) ∧
    (∃ error, Gives (Except ParseError (Parsed String)) Rules.empty
      (choice [word "let", word "sin", word "set"] "word") input (.error error) ∧
        error.leaves.length = 3 ∧ error.report = (1, blamed)) ∧
    ∃ whole, Gives (Except ParseError (Parsed (String × String))) Rules.empty
      (((word "s").seq (word "in")).or ((word "s").seq (word "um"))) input (.ok whole) ∧ whole.value = ("s", "um") := by
  intro word input blamed
  obtain ⟨ordered, brackets, listed, factored⟩ := choice_decided_in_order (Rules.empty : Rules fun _ : Unit => Unit)
  obtain ⟨left, right, list⟩ := brackets (word "let") (word "sin") (word "set") "word"
  have reads : Reads Rules.empty (((word "let").or (word "sin")).or (word "set")) input (.error
      (.alternatives (.alternatives (.mismatch "'l'" "'s'" 0) blamed) (.mismatch "'e'" "'u'" 1))) := ⟨1, rfl⟩
  obtain ⟨-, -, same⟩ := ordered (σ := Except ParseError (Parsed String)) _ _ input left
  obtain ⟨answer, gives, leaves, report⟩ := same _ list _ reads.gives
  have joined : Reads Rules.empty ((word "s").seq ((word "in").or (word "um"))) input
      (.ok ⟨("s", "um"), input, input.skip 3⟩) := ⟨1, rfl⟩
  obtain ⟨apart, -⟩ :=
    factored (σ := Except ParseError (Parsed (String × String))) (word "s") (word "in") (word "um") input
  obtain ⟨answer', gives', same'⟩ := apart _ joined.gives
  refine ⟨⟨_, reads.gives, rfl⟩, ?_, ?_⟩
  · cases answer with
    | ok parsed => cases report
    | error error =>
      refine ⟨error, gives, ?_, (Except.error.inj report).symm⟩
      rw [← Except.error.inj leaves]
      rfl
  · cases answer' with
    | error error => cases same'
    | ok whole => exact ⟨whole, gives', by rw [← Except.ok.inj same']⟩

end Grammar

end Deferred
