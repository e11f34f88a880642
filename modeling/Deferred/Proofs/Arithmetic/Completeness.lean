import Deferred.Proofs.Arithmetic.Soundness
import Deferred.Proofs.Parsing.Refinement
import Mathlib.Data.List.DropRight

/-! Every derived text is read, with the tree of its derivation. A reader takes as much as it can, so what
may stand behind a text matters: behind an operand there may be an operator that binds more loosely, a
closing parenthesis or nothing, and none of these can be part of it. White space is not compared, since
the tokens on both sides may take it. -/

namespace Deferred.Arithmetic

open Grammar

variable {ρ : Type} {Value : ρ → Type} {rules : Rules Value} {input next : Input} {tail : List Char}

def stripped [Text.Classes] (text : List Char) : List Char :=
  text.dropWhile Text.isWhite

section Stripped

variable [Text.Classes]

theorem rest_skipWhite (input : Input) : input.skipWhite.rest = stripped input.rest :=
  input.rest_skipWhile Text.isWhite

theorem stripped_append {before : List Char} (white : ∀ c ∈ before, Text.isWhite c = true)
    (text : List Char) : stripped (before ++ text) = stripped text :=
  List.dropWhile_append_of_pos white

theorem stripped_of_head {text : List Char} {c : Char} (stands : text.head? = some c)
    (solid : Text.isWhite c = false) : stripped text = text := by
  obtain ⟨rest, rfl⟩ := List.head?_eq_some_iff.mp stands
  exact List.dropWhile_cons_of_neg (Bool.eq_false_iff.mp solid)

theorem stripped_stripped (text : List Char) : stripped (stripped text) = stripped text :=
  List.dropWhile_idempotent ..

end Stripped

section Follow

/-- The characters that may stand behind a nonterminal. -/
def follow : Nonterminal → List Char
  | .expr => [')']
  | .term => [')', '+', '-']
  | .factor => [')', '+', '-', '*']
  | .exp => [')', '+', '-', '*', '^']

def Follows [Text.Classes] (symbol : Nonterminal) (tail : List Char) : Prop :=
  ∀ c, (stripped tail).head? = some c → c ∈ follow symbol

theorem follow_subset (symbol : Nonterminal) : ∀ c ∈ follow symbol, c ∈ follow .exp := by
  cases symbol <;> simp [follow]

theorem mem_marks_of_mem_follow {symbol : Nonterminal} {c : Char} (member : c ∈ follow symbol) :
    c ∈ Text.marks := by
  have every : (follow .exp).all (Text.marks.contains ·) = true := by decide
  simpa using List.all_eq_true.mp every c (follow_subset symbol c member)

theorem not_isAlphanumeric_of_follows [Text.Classes] [Text.Separate] {symbol : Nonterminal}
    (follows : Follows symbol tail) {behind : List Char} (white : ∀ c ∈ behind, Text.isWhite c = true) {c : Char}
    (stands : (behind ++ tail).head? = some c) : Text.isAlphanumeric c = false := by
  cases solid : Text.isWhite c with
  | true => exact Text.not_isAlphanumeric_of_isWhite solid
  | false =>
    cases behind with
    | nil =>
      have member := follows c (stripped_of_head stands solid ▸ stands)
      exact Text.not_isAlphanumeric_of_mem_marks (mem_marks_of_mem_follow member)
    | cons d rest =>
      obtain rfl := Option.some.inj stands
      exact absurd (white d (List.mem_cons_self ..)) (Bool.eq_false_iff.mp solid)

end Follow

section Spaced

variable [Text.Classes]

theorem Spaced.skipWhite {core text : List Char} (spaced : Spaced core text) {c : Char}
    (begins : core.head? = some c) (solid : Text.isWhite c = false)
    (left : stripped input.rest = stripped (text ++ tail)) :
    ∃ behind, input.skipWhite.rest = core ++ (behind ++ tail) ∧ ∀ c ∈ behind, Text.isWhite c = true := by
  obtain ⟨before, behind, rfl, white, white'⟩ := spaced
  have stands : (core ++ (behind ++ tail)).head? = some c := by
    rw [List.head?_append, begins, Option.some_or]
  refine ⟨behind, ?_, white'⟩
  rw [rest_skipWhite, left, List.append_assoc, List.append_assoc, stripped_append white,
    stripped_of_head stands solid]

theorem Spaced.length_pos {c : Char} {text : List Char} (spaced : Spaced [c] text) : 0 < text.length := by
  obtain ⟨before, behind, rfl, _, _⟩ := spaced
  simp only [List.length_append, List.length_singleton]
  omega

theorem Spaced.symbol {c : Char} {text : List Char} (spaced : Spaced [c] text)
    (solid : Text.isWhite c = false) (left : stripped input.rest = stripped (text ++ tail)) :
    input.skipWhite.head = some c ∧ input.skipWhite.tail.skipWhite.rest = stripped tail := by
  obtain ⟨behind, between, white⟩ := spaced.skipWhite rfl solid left
  refine ⟨by rw [Input.head, between]; rfl, ?_⟩
  rw [rest_skipWhite, Input.rest_tail, between, List.singleton_append, List.tail_cons, stripped_append white]

end Spaced

section Complete

def CompleteUpTo [Text.Classes] (rules : Rules Value) (size : Nat) (grammar : Grammar Value Expr)
    (symbol : Nonterminal) : Prop :=
  ∀ ⦃text tree⦄, text.length ≤ size → Derives symbol text tree → ∀ ⦃input tail⦄,
    stripped input.rest = stripped (text ++ tail) → Follows symbol tail →
      ∃ next, Takes rules grammar input tree next ∧ next.rest = stripped tail

variable {size : Nat} {operand chain : Nonterminal} {meaning : Meaning}
  {operator : Grammar Value (Expr → Expr → Expr)} {item : Grammar Value Expr}

structure Level (operand chain : Nonterminal) (meaning : Meaning) : Prop where
  before : ∀ c ∈ follow chain, meaning c = none
  subset : ∀ c ∈ follow chain, c ∈ follow operand
  marks : ∀ c combine, meaning c = some combine → c ∈ follow operand

theorem level_power : Level .exp .factor .power := by
  refine ⟨by simp [follow, Meaning.power, Meaning.single], follow_subset .factor, fun c combine means => ?_⟩
  obtain ⟨rfl, _⟩ := Meaning.single_eq_some.mp means
  decide

theorem level_product : Level .factor .term .product := by
  refine ⟨by simp [follow, Meaning.product, Meaning.single], by simp [follow], fun c combine means => ?_⟩
  obtain ⟨rfl, _⟩ := Meaning.single_eq_some.mp means
  decide

theorem level_sum : Level .term .expr .sum := by
  refine ⟨by simp [follow, Meaning.sum, Meaning.single], by simp [follow], fun c combine means => ?_⟩
  rcases Meaning.sum_eq_some.mp means with ⟨rfl, _⟩ | ⟨rfl, _⟩ <;> decide

theorem Numeral.head {core : List Char} {number : Int64} (numeral : Numeral core number) :
    ∃ c, core.head? = some c ∧ (c = '-' ∨ c.isDigit = true) := by
  cases numeral with
  | plain nonempty each =>
    obtain ⟨c, digits, rfl⟩ := List.exists_cons_of_ne_nil nonempty
    exact ⟨c, rfl, .inr (each c (List.mem_cons_self ..))⟩
  | negative => exact ⟨'-', rfl, .inl rfl⟩

variable [Text.Classes] [Text.Separate]

theorem Level.follows (level : Level operand chain meaning) {rest : List Char}
    {pairs : List ((Expr → Expr → Expr) × Expr)} (behind : Pairs operand meaning rest pairs)
    (follows : Follows chain tail) : Follows operand (rest ++ tail) := by
  cases behind with
  | nil => exact fun c stands => level.subset c (follows c stands)
  | @cons c combine mark text tree rest pairs means spaced _ _ =>
    have member := level.marks c combine means
    obtain ⟨before, after, rfl, white, _⟩ := spaced
    intro d stands
    rw [List.append_assoc, List.append_assoc, List.append_assoc, List.append_assoc, stripped_append white,
      stripped_of_head rfl (Text.not_isWhite_of_mem_marks (mem_marks_of_mem_follow member))] at stands
    obtain rfl := Option.some.inj stands
    exact member

theorem collects_pairs (ops : Operators rules operator meaning) (level : Level operand chain meaning)
    (complete : CompleteUpTo rules size item operand) {rest : List Char}
    {pairs : List ((Expr → Expr → Expr) × Expr)} (behind : Pairs operand meaning rest pairs)
    (short : rest.length ≤ size) (follows : Follows chain tail)
    (left : input.rest = stripped (rest ++ tail)) :
    ∃ error next, Collects (Reads rules (operator.seq item)) input ⟨pairs, next, some error⟩ ∧
      next.rest = stripped tail := by
  induction behind generalizing input with
  | nil =>
    have none : Fails rules operator input := by
      refine ops.fails.mpr fun c stands => level.before c (follows c ?_)
      rwa [Input.head, rest_skipWhite, left, stripped_stripped] at stands
    obtain ⟨error, reads⟩ : Fails rules (operator.seq item) input := fails_bind.mpr (.inl none)
    exact ⟨error, input, .failed reads, left⟩
  | @cons c combine mark text tree rest pairs means spaced derives behind ih =>
    simp only [List.length_append] at short
    have solid := Text.not_isWhite_of_mem_marks (mem_marks_of_mem_follow (level.marks c combine means))
    have left' : stripped input.rest = stripped (mark ++ (text ++ (rest ++ tail))) := by
      simp only [left, stripped_stripped, List.append_assoc]
    obtain ⟨stands, after⟩ := spaced.symbol solid left'
    have takes : Takes rules operator input combine input.skipWhite.tail.skipWhite :=
      ops.takes.mpr ⟨c, stands, means, rfl⟩
    obtain ⟨next, takes', after'⟩ := complete (by omega) derives
      (show _ = stripped (text ++ (rest ++ tail)) by rw [after, stripped_stripped])
      (level.follows behind follows)
    have pair : Takes rules (operator.seq item) input (combine, tree) next :=
      takes_bind.mpr ⟨combine, _, takes, takes_map.mpr ⟨tree, takes', rfl⟩⟩
    have further : input.pos < next.pos :=
      Nat.lt_of_lt_of_le (pos_behind_symbol stands).2 takes'.before.pos
    obtain ⟨error, last, collects, after''⟩ := ih (by omega) after'
    exact ⟨error, last, .more pair further collects, after''⟩

theorem takes_chain_of_pairs (ops : Operators rules operator meaning)
    (level : Level operand chain meaning) (complete : CompleteUpTo rules size item operand)
    (fold : Expr → List ((Expr → Expr → Expr) × Expr) → Expr) {first rest : List Char} {head : Expr}
    {pairs : List ((Expr → Expr → Expr) × Expr)} (derives : Derives operand first head)
    (behind : Pairs operand meaning rest pairs) (short : (first ++ rest).length ≤ size)
    (left : stripped input.rest = stripped (first ++ rest ++ tail)) (follows : Follows chain tail) :
    ∃ next, Takes rules (.chain item (operator.seq item) fold none) input (fold head pairs) next ∧
      next.rest = stripped tail := by
  rw [List.length_append] at short
  rw [List.append_assoc] at left
  obtain ⟨middle, takes, after⟩ := complete (by omega) derives left (level.follows behind follows)
  obtain ⟨error, next, collects, after'⟩ :=
    collects_pairs ops level complete behind (by omega) follows after
  exact ⟨next, takes_chain.mpr ⟨head, middle, _, takes, collects, rfl, rfl⟩, after'⟩

theorem CompleteUpTo.powers (complete : CompleteUpTo rules size item .exp) :
    CompleteUpTo rules size (item.chainRight ((symbol "^").giving (.node .pow))) .factor := by
  intro text tree short derives input tail left follows
  obtain ⟨first, head, rest, pairs, rfl, operand, behind, rfl⟩ := derives_factor_iff.mp derives
  exact takes_chain_of_pairs operators_power level_power complete _ operand behind short left follows

theorem CompleteUpTo.products (complete : CompleteUpTo rules size item .factor) :
    CompleteUpTo rules size (products item (.node .mul)) .term := by
  intro text tree short derives input tail left follows
  obtain ⟨first, head, rest, pairs, rfl, operand, behind, rfl⟩ := derives_term_iff.mp derives
  exact takes_chain_of_pairs operators_product level_product complete _ operand behind short left follows

theorem CompleteUpTo.sums (complete : CompleteUpTo rules size item .term) :
    CompleteUpTo rules size (sums item (.node .add) (.node .sub)) .expr := by
  intro text tree short derives input tail left follows
  obtain ⟨first, head, rest, pairs, rfl, operand, behind, rfl⟩ := derives_expr_iff.mp derives
  exact takes_chain_of_pairs operators_sum level_sum complete _ operand behind short left follows

theorem follows_closing {closing : List Char} (spaced : Spaced [')'] closing) :
    Follows .expr (closing ++ tail) := by
  obtain ⟨before, behind, rfl, white, _⟩ := spaced
  intro c stands
  rw [List.append_assoc, List.append_assoc, stripped_append white, stripped_of_head rfl
    (Text.not_isWhite_of_mem_marks (by decide))] at stands
  obtain rfl := Option.some.inj stands
  decide

theorem takes_parenthesized_of_derives {expression : Grammar Value Expr} {opening text closing : List Char}
    {tree : Expr} (complete : CompleteUpTo rules text.length expression .expr)
    (opens : Spaced ['('] opening) (derives : Derives .expr text tree) (closes : Spaced [')'] closing)
    (left : stripped input.rest = stripped (opening ++ text ++ closing ++ tail)) :
    ∃ next, Takes rules (parenthesized expression) input tree next ∧ next.rest = stripped tail := by
  rw [List.append_assoc, List.append_assoc] at left
  obtain ⟨stands, after⟩ := opens.symbol (Text.not_isWhite_of_mem_marks (by decide)) left
  obtain ⟨middle, takes, after'⟩ := complete (Nat.le_refl _) derives
    (show _ = stripped (text ++ (closing ++ tail)) by rw [after, stripped_stripped]) (follows_closing closes)
  obtain ⟨stands', after''⟩ := closes.symbol (Text.not_isWhite_of_mem_marks (by decide))
    (show stripped middle.rest = stripped (closing ++ tail) by rw [after', stripped_stripped])
  exact ⟨_, takes_parenthesized.mpr ⟨middle, stands, takes, stands', rfl⟩, after''⟩

omit [Text.Separate] in
theorem fails_parenthesized {expression : Grammar Value Expr} (other : input.skipWhite.head ≠ some '(') :
    Fails rules (parenthesized expression) input := by
  have single : "(".toList = ['('] := rfl
  rw [parenthesized, seqLeft, seqRight, fails_bind, fails_bind, fails_symbol single]
  exact .inl (.inl other)

theorem takes_integer_of_derives {core text : List Char} {number : Int64} (numeral : Numeral core number)
    (spaced : Spaced core text) (left : stripped input.rest = stripped (text ++ tail))
    (follows : Follows .exp tail) :
    input.skipWhite.head ≠ some '(' ∧
      ∃ next, Takes rules integer input number next ∧ next.rest = stripped tail := by
  obtain ⟨c, begins, kind⟩ := numeral.head
  have solid : Text.isWhite c = false ∧ c ≠ '(' := by
    rcases kind with rfl | digit
    · exact ⟨Text.not_isWhite_of_mem_marks (by decide), by decide⟩
    · refine ⟨Text.not_isWhite_of_isAlphanumeric (Text.isAlphanumeric_of_isDigit digit), ?_⟩
      intro same
      subst same
      exact absurd digit (by decide)
  obtain ⟨behind, between, white⟩ := spaced.skipWhite begins solid.1 left
  constructor
  · rw [Input.head, between, List.head?_append, begins, Option.some_or]
    exact fun same => solid.2 (Option.some.inj same)
  · obtain ⟨middle, takes, after⟩ := numeral.exists_takes between fun d stands => by
      rw [← Bool.not_eq_true]
      exact fun digit => absurd (not_isAlphanumeric_of_follows follows white stands)
        (by simp [Text.isAlphanumeric_of_isDigit digit])
    refine ⟨_, takes_token.mpr ⟨middle, takes, rfl⟩, ?_⟩
    rw [rest_skipWhite, after, stripped_append white]

theorem takes_identifier_of_derives {core text : List Char} {name : String} (is : Name core name)
    (spaced : Spaced core text) (left : stripped input.rest = stripped (text ++ tail))
    (follows : Follows .exp tail) :
    input.skipWhite.head ≠ some '(' ∧ Fails rules integer input ∧
      ∃ next, Takes rules (identifier []) input name next ∧ next.rest = stripped tail := by
  obtain ⟨c, begins, letter⟩ : ∃ c, core.head? = some c ∧ Text.isLetter c = true := by
    cases is with
    | mk letter each => exact ⟨_, rfl, letter⟩
  have solid := Text.not_isWhite_of_isAlphanumeric (Text.isAlphanumeric_of_isLetter letter)
  obtain ⟨behind, between, white⟩ := spaced.skipWhite begins solid left
  have stands : input.skipWhite.head = some c := by
    rw [Input.head, between, List.head?_append, begins, Option.some_or]
  have none : ∀ d, Text.isLetter d = false → c ≠ d := fun d other same =>
    absurd letter (by simp [same, other])
  have opening : c ≠ '(' := none '(' (Text.not_isLetter_of_mem_marks (by decide))
  have minus : c ≠ '-' := none '-' (Text.not_isLetter_of_mem_marks (by decide))
  refine ⟨fun same => opening (Option.some.inj (stands.symm.trans same)), ?_, ?_⟩
  · refine fails_token.mpr (fails_signed fun d same => ?_)
    obtain rfl := Option.some.inj (stands.symm.trans same)
    refine ⟨minus, ?_⟩
    rw [← Bool.not_eq_true]
    exact fun digit => absurd letter (by simp [Text.not_isLetter_of_isDigit digit])
  · obtain ⟨middle, takes, after⟩ := is.exists_takes between fun d stands =>
      not_isAlphanumeric_of_follows follows white stands
    refine ⟨_, takes_token.mpr ⟨middle, takes, rfl⟩, ?_⟩
    rw [rest_skipWhite, after, stripped_append white]

theorem CompleteUpTo.atom {expression : Grammar Value Expr}
    (complete : ∀ smaller < size, CompleteUpTo rules smaller expression .expr) :
    CompleteUpTo rules size (atom expression) .exp := by
  intro text tree short derives input tail left follows
  simp only [Arithmetic.atom, takes_or, fails_or, takes_map, fails_map]
  cases derives with
  | parenthesized opens derives closes =>
    have shorter := opens.length_pos
    simp only [List.length_append] at short
    obtain ⟨next, takes, after⟩ :=
      takes_parenthesized_of_derives (complete _ (by omega)) opens derives closes left
    exact ⟨next, .inl (.inl takes), after⟩
  | integer numeral spaced =>
    obtain ⟨other, next, takes, after⟩ := takes_integer_of_derives numeral spaced left follows
    exact ⟨next, .inl (.inr ⟨fails_parenthesized other, _, takes, rfl⟩), after⟩
  | identifier is spaced =>
    obtain ⟨other, fails, next, takes, after⟩ := takes_identifier_of_derives is spaced left follows
    exact ⟨next, .inr ⟨⟨fails_parenthesized other, fails⟩, _, takes, rfl⟩, after⟩

theorem CompleteUpTo.builder {expression : Grammar Value Expr}
    (complete : ∀ smaller < size, CompleteUpTo rules smaller expression .expr) :
    CompleteUpTo rules size (builder expression) .expr :=
  (CompleteUpTo.atom complete).powers.products.sums

/-- The text in parentheses is shorter than the text with them. -/
theorem completeUpTo_expression (size : Nat) : CompleteUpTo builderRules size (.ref ()) .expr := by
  induction size using Nat.strongRecOn with
  | _ size ih =>
    intro text tree short derives input tail left follows
    obtain ⟨next, takes, after⟩ := CompleteUpTo.builder ih short derives left follows
    exact ⟨next, (takes_ref rfl).mpr takes, after⟩

end Complete

section Whole

variable [Text.Classes] [Text.Separate] {source : Source} {tree : Expr}

theorem takes_complete_iff : (∃ next, Takes builderRules (complete (.ref ())) (.ofSource source) tree next) ↔
    Derives .expr source.chars tree := by
  simp only [complete, seqLeft, takes_bind, takes_map, takes_eof]
  constructor
  · intro given
    obtain ⟨_, tree, next, takes, _, ⟨ended, rfl⟩, rfl⟩ := given
    obtain ⟨text, left, derives⟩ := soundFrom_expression _ (.refl _) takes
    have whole : source.chars = text := by rwa [ended, List.append_nil] at left
    exact whole ▸ derives
  · intro derives
    obtain ⟨next, takes, ended⟩ := completeUpTo_expression _ (Nat.le_refl _) derives
      (show stripped (Input.ofSource source).rest = stripped (source.chars ++ []) by
        rw [List.append_nil]; rfl)
      (fun c stands => absurd stands (by simp [stripped]))
    exact ⟨next, tree, next, takes, (), ⟨ended, rfl⟩, rfl⟩

/-- Reading a whole source as an expression always settles, on every loop where nothing else is to be done,
and the trees that it can settle with are those that the grammar derives. -/
theorem builder_exact {σ : Type} [Storable (Except ParseError (Parsed Expr)) σ] (source : Source) :
    ∃ answer ran least, (∀ bound > least, ∀ loop : Loop σ, loop.Vacant → ∃ after,
      loop.waitFor bound (parse builderRules (complete (.ref ())) (.ofSource source)) =
        some ⟨some answer, ran, after⟩ ∧ after.Vacant) ∧
      ∀ tree, (∃ parsed, answer = .ok parsed ∧ parsed.value = tree) ↔ Derives .expr source.chars tree := by
  obtain ⟨answer, fuel, found⟩ := EndsFrom.seqLeft (endsFrom_expression (.ofSource source)) endsFrom_eof _
    (.refl _)
  obtain ⟨ran, waited⟩ := @exists_waitFor_of_read _ _ σ _ _ _ _ _ _ _ found
  refine ⟨answer, ran, fuel + 2 * ran, fun bound enough loop vacant => ?_, fun tree => ?_⟩
  · obtain ⟨after, whole, _, empty⟩ := waited bound enough loop vacant
    exact ⟨after, whole, empty⟩
  · rw [← takes_complete_iff]
    have reads : Reads builderRules (complete (.ref ())) (.ofSource source) answer := ⟨fuel, found⟩
    constructor
    · intro given
      obtain ⟨parsed, rfl, rfl⟩ := given
      exact ⟨parsed.next, reads.takes⟩
    · intro given
      obtain ⟨next, takes⟩ := given
      exact ⟨_, reads.unique takes, rfl⟩

end Whole

/-- A minus sign behind a sign and before one, with white space in front of it. -/
theorem builder_exact_signs : ∃ parsed ran least, parsed.value = .node .sub (.int (-1)) (.int (-2)) ∧
    ∀ bound > least, ∃ after,
      ({} : Loop (Except ParseError (Parsed Expr))).waitFor bound (parse builderRules (complete (.ref ()))
        (.ofList ['-', '1', ' ', '-', '-', '2'] 0)) = some ⟨some (.ok parsed), ran, after⟩ := by
  have bare : ∀ core : List Char, Spaced core core := fun core =>
    ⟨[], [], by simp, by simp, by simp⟩
  have one : Derives .exp ['-', '1'] (.int (-1)) :=
    .integer (.negative (by decide) (List.forall_mem_singleton.mpr (by decide)) (by decide)) (bare _)
  have two : Derives .exp ['-', '2'] (.int (-2)) :=
    .integer (.negative (by decide) (List.forall_mem_singleton.mpr (by decide)) (by decide)) (bare _)
  have minus : Spaced ['-'] [' ', '-'] :=
    ⟨[' '], [], rfl, List.forall_mem_singleton.mpr (by decide), by simp⟩
  have derives : Derives .expr ['-', '1', ' ', '-', '-', '2'] (.node .sub (.int (-1)) (.int (-2))) :=
    .sub (.term (.factor (.exp one))) minus (.factor (.exp two))
  obtain ⟨answer, ran, least, waited, same⟩ := builder_exact (σ := Except ParseError (Parsed Expr))
    (.ofList ['-', '1', ' ', '-', '-', '2'] 0)
  obtain ⟨parsed, rfl, value⟩ := (same _).mpr derives
  have vacant : ({} : Loop (Except ParseError (Parsed Expr))).Vacant := ⟨rfl, rfl, rfl⟩
  refine ⟨parsed, ran, least, value, fun bound enough => ?_⟩
  obtain ⟨after, whole, _⟩ := waited bound enough _ vacant
  exact ⟨after, whole⟩

end Deferred.Arithmetic
