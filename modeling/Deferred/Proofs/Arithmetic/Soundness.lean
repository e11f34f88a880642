import Deferred.Arithmetic.Grammars
import Deferred.Proofs.Arithmetic.Tokens
import Deferred.Proofs.Parsing.Ends

/-! Reading expressions ends, and what is read is derived. An expression in parentheses stands behind the
opening one, so both follow by induction on the length of the text that is left. -/

namespace Deferred.Arithmetic

open Grammar

variable [Text.Classes] {ρ : Type} {Value : ρ → Type} {rules : Rules Value} {α : Type} {input next : Input}

section Tokens

theorem Spaced.of_skipWhite {middle : Input} {core : List Char}
    (between : input.skipWhite.rest = core ++ middle.rest) :
    ∃ text, input.rest = text ++ middle.skipWhite.rest ∧ Spaced core text := by
  refine ⟨input.rest.takeWhile Text.isWhite ++ core ++ middle.rest.takeWhile Text.isWhite, ?_, _, _, rfl,
    List.all_eq_true.mp List.all_takeWhile, List.all_eq_true.mp List.all_takeWhile⟩
  rw [Input.rest_skipWhile, List.append_assoc, List.takeWhile_append_dropWhile, List.append_assoc,
    ← between, Input.rest_skipWhile, List.takeWhile_append_dropWhile]

structure Operators (rules : Rules Value) (operator : Grammar Value (Expr → Expr → Expr))
    (meaning : Meaning) : Prop where
  takes : ∀ {input next combine}, Takes rules operator input combine next ↔ ∃ c,
    input.skipWhite.head = some c ∧ meaning c = some combine ∧ next = input.skipWhite.tail.skipWhite
  fails : ∀ {input}, Fails rules operator input ↔
    ∀ c, input.skipWhite.head = some c → meaning c = none

theorem operators_symbol {text : String} {c : Char} (single : text.toList = [c])
    (combine : Expr → Expr → Expr) :
    Operators rules ((symbol text).giving combine) (.single c combine) := by
  constructor
  · intro input next combine'
    simp only [giving, takes_map, takes_symbol single]
    constructor
    · intro given
      obtain ⟨_, ⟨stands, rfl, rfl⟩, rfl⟩ := given
      exact ⟨c, stands, if_pos rfl, rfl⟩
    · intro given
      obtain ⟨d, stands, means, rfl⟩ := given
      obtain ⟨rfl, rfl⟩ := Meaning.single_eq_some.mp means
      exact ⟨_, ⟨stands, rfl, rfl⟩, rfl⟩
  · intro input
    rw [giving, fails_map, fails_symbol single]
    constructor
    · exact fun other d stands => if_neg fun same : d = c => other (same ▸ stands)
    · exact fun none stands => absurd (none c stands) (by simp [Meaning.single])

theorem operators_or {first second : Grammar Value (Expr → Expr → Expr)} {meaning meaning' : Meaning}
    (ops : Operators rules first meaning) (ops' : Operators rules second meaning') :
    Operators rules (first.or second) fun c => (meaning c).or (meaning' c) := by
  constructor
  · intro input next combine
    rw [takes_or, ops.takes, ops.fails, ops'.takes]
    constructor
    · intro given
      rcases given with ⟨c, stands, means, rfl⟩ | ⟨none, c, stands, means, rfl⟩
      · exact ⟨c, stands, by rw [means, Option.some_or], rfl⟩
      · exact ⟨c, stands, by rw [none c stands, Option.none_or, means], rfl⟩
    · intro given
      obtain ⟨c, stands, means, rfl⟩ := given
      cases meant : meaning c with
      | some combine' =>
        rw [meant, Option.some_or] at means
        exact .inl ⟨c, stands, means ▸ meant, rfl⟩
      | none =>
        rw [meant, Option.none_or] at means
        refine .inr ⟨fun d stands' => ?_, c, stands, means, rfl⟩
        rwa [← Option.some.inj (stands.symm.trans stands')]
  · intro input
    rw [fails_or, ops.fails, ops'.fails]
    simp only [Option.or_eq_none_iff, forall_and]

theorem operators_sum : Operators rules (((symbol "+").giving (Expr.node .add)).or
    ((symbol "-").giving (Expr.node .sub))) .sum :=
  operators_or (operators_symbol rfl _) (operators_symbol rfl _)

theorem operators_product : Operators rules ((symbol "*").giving (Expr.node .mul)) .product :=
  operators_symbol rfl _

theorem operators_power : Operators rules ((symbol "^").giving (Expr.node .pow)) .power :=
  operators_symbol rfl _

end Tokens

section Sound

def SoundFrom (rules : Rules Value) (input : Input) (grammar : Grammar Value Expr)
    (symbol : Nonterminal) : Prop :=
  ∀ ⦃later tree next⦄, input.Before later → Takes rules grammar later tree next →
    ∃ text, later.rest = text ++ next.rest ∧ Derives symbol text tree

variable {operand : Nonterminal} {meaning : Meaning} {operator : Grammar Value (Expr → Expr → Expr)}
  {item : Grammar Value Expr}

theorem takes_pair (ops : Operators rules operator meaning) {pair : (Expr → Expr → Expr) × Expr}
    (takes : Takes rules (operator.seq item) input pair next) : ∃ c middle,
      input.skipWhite.head = some c ∧ meaning c = some pair.1 ∧
        middle = input.skipWhite.tail.skipWhite ∧ Takes rules item middle pair.2 next := by
  simp only [seq, takes_bind, takes_map, ops.takes] at takes
  obtain ⟨_, middle, ⟨c, stands, means, same⟩, _, takes, rfl⟩ := takes
  exact ⟨c, middle, stands, means, same, takes⟩

theorem pair_from (ops : Operators rules operator meaning) (sound : SoundFrom rules input item operand)
    {later : Input} (before : input.Before later) {pair : (Expr → Expr → Expr) × Expr}
    (takes : Takes rules (operator.seq item) later pair next) : ∃ text, later.rest = text ++ next.rest ∧
      ∀ {rest pairs}, Pairs operand meaning rest pairs →
        Pairs operand meaning (text ++ rest) (pair :: pairs) := by
  obtain ⟨c, middle, stands, means, rfl, takes⟩ := takes_pair ops takes
  have between : later.skipWhite.rest = [c] ++ later.skipWhite.tail.rest :=
    Input.rest_eq_of_head stands
  obtain ⟨mark, left, spaced⟩ := Spaced.of_skipWhite between
  have before' : later.Before later.skipWhite.tail.skipWhite :=
    ((later.before_skipWhile _).trans (Input.before_tail _)).trans (Input.before_skipWhile _ _)
  obtain ⟨text, left', derives⟩ := sound (before.trans before') takes
  exact ⟨mark ++ text, by rw [left, left', List.append_assoc], .cons means spaced derives⟩

theorem pairs_from (ops : Operators rules operator meaning) (sound : SoundFrom rules input item operand)
    {later : Input} (before : input.Before later) {items : Items ((Expr → Expr → Expr) × Expr)}
    (collects : Collects (Reads rules (operator.seq item)) later items) :
    ∃ text, later.rest = text ++ items.next.rest ∧ Pairs operand meaning text items.values := by
  induction collects with
  | failed => exact ⟨[], rfl, .nil⟩
  | stopped reads =>
    obtain ⟨text, left, pairs⟩ := pair_from ops sound before reads.takes
    exact ⟨text, left, List.append_nil text ▸ pairs .nil⟩
  | more reads _ _ ih =>
    obtain ⟨text, left, pairs⟩ := pair_from ops sound before reads.takes
    obtain ⟨rest, left', behind⟩ := ih (before.trans reads.takes.before)
    exact ⟨text ++ rest, by rw [left, left', List.append_assoc]; rfl, pairs behind⟩

theorem chain_from (ops : Operators rules operator meaning) (sound : SoundFrom rules input item operand)
    {fold : Expr → List ((Expr → Expr → Expr) × Expr) → Expr} {later : Input} {tree : Expr}
    (before : input.Before later)
    (takes : Takes rules (.chain item (operator.seq item) fold none) later tree next) :
    ∃ first head rest pairs, later.rest = first ++ rest ++ next.rest ∧ Derives operand first head ∧
      Pairs operand meaning rest pairs ∧ tree = fold head pairs := by
  obtain ⟨head, middle, items, operand, collects, rfl, rfl⟩ := takes_chain.mp takes
  obtain ⟨first, left, derives⟩ := sound before operand
  obtain ⟨rest, left', behind⟩ := pairs_from ops sound (before.trans operand.before) collects
  exact ⟨first, head, rest, items.values, by rw [left, left', List.append_assoc], derives, behind, rfl⟩

theorem SoundFrom.sums (sound : SoundFrom rules input item .term) :
    SoundFrom rules input (sums item (.node .add) (.node .sub)) .expr := by
  intro later tree next before takes
  obtain ⟨first, head, rest, pairs, left, derives, behind, same⟩ :=
    chain_from operators_sum sound before takes
  exact ⟨_, left, derives_expr_iff.mpr ⟨first, head, rest, pairs, rfl, derives, behind, same⟩⟩

theorem SoundFrom.products (sound : SoundFrom rules input item .factor) :
    SoundFrom rules input (products item (.node .mul)) .term := by
  intro later tree next before takes
  obtain ⟨first, head, rest, pairs, left, derives, behind, same⟩ :=
    chain_from operators_product sound before takes
  exact ⟨_, left, derives_term_iff.mpr ⟨first, head, rest, pairs, rfl, derives, behind, same⟩⟩

theorem SoundFrom.powers (sound : SoundFrom rules input item .exp) :
    SoundFrom rules input (item.chainRight ((symbol "^").giving (.node .pow))) .factor := by
  intro later tree next before takes
  obtain ⟨first, head, rest, pairs, left, derives, behind, same⟩ :=
    chain_from operators_power sound before takes
  exact ⟨_, left, derives_factor_iff.mpr ⟨first, head, rest, pairs, rfl, derives, behind, same⟩⟩

/-- What stands in parentheses is read strictly behind the opening one. -/
theorem takes_parenthesized {expression : Grammar Value α} {value : α} :
    Takes rules (parenthesized expression) input value next ↔ ∃ middle,
      input.skipWhite.head = some '(' ∧
        Takes rules expression input.skipWhite.tail.skipWhite value middle ∧
          middle.skipWhite.head = some ')' ∧ next = middle.skipWhite.tail.skipWhite := by
  have opening : "(".toList = ['('] := rfl
  have closing : ")".toList = [')'] := rfl
  simp only [parenthesized, seqLeft, seqRight, takes_bind, takes_map, takes_symbol opening,
    takes_symbol closing]
  constructor
  · intro given
    obtain ⟨_, middle, ⟨_, _, ⟨opens, rfl, rfl⟩, takes⟩, _, ⟨closes, rfl, rfl⟩, rfl⟩ := given
    exact ⟨middle, opens, takes, closes, rfl⟩
  · intro given
    obtain ⟨middle, opens, takes, closes, rfl⟩ := given
    exact ⟨value, middle, ⟨_, _, ⟨opens, rfl, rfl⟩, takes⟩, _, ⟨closes, rfl, rfl⟩, rfl⟩

theorem pos_behind_symbol {c : Char} (stands : input.skipWhite.head = some c) :
    input.Before input.skipWhite.tail.skipWhite ∧ input.pos < input.skipWhite.tail.skipWhite.pos := by
  have before := input.before_skipWhile Text.isWhite
  have after := Input.before_skipWhile Text.isWhite input.skipWhite.tail
  have moved := Input.pos_tail stands
  refine ⟨(before.trans (Input.before_tail _)).trans after, ?_⟩
  have first := before.pos
  have last := after.pos
  simp only [Input.skipWhite] at moved first last ⊢
  omega

theorem soundFrom_atom {expression : Grammar Value Expr}
    (sound : ∀ later, input.Before later → input.pos < later.pos →
      SoundFrom rules later expression .expr) : SoundFrom rules input (atom expression) .exp := by
  intro later tree next before takes
  simp only [atom, takes_or, takes_map] at takes
  rcases takes with (takes | ⟨_, number, takes, rfl⟩) | ⟨_, name, takes, rfl⟩
  · obtain ⟨middle, opens, inner, closes, rfl⟩ := takes_parenthesized.mp takes
    obtain ⟨before', further⟩ := pos_behind_symbol opens
    have further' := Nat.lt_of_le_of_lt before.pos further
    obtain ⟨text, left, derives⟩ := sound _ (before.trans before') further' (.refl _) inner
    obtain ⟨opening, left', spaced⟩ := Spaced.of_skipWhite
      (show later.skipWhite.rest = ['('] ++ _ from Input.rest_eq_of_head opens)
    obtain ⟨closing, left'', spaced'⟩ := Spaced.of_skipWhite
      (show middle.skipWhite.rest = [')'] ++ _ from Input.rest_eq_of_head closes)
    exact ⟨_, by rw [left', left, left'', List.append_assoc, List.append_assoc],
      .parenthesized spaced derives spaced'⟩
  · obtain ⟨middle, inner, rfl⟩ := takes_token.mp takes
    obtain ⟨core, between, numeral⟩ := Numeral.of_takes inner
    obtain ⟨text, left, spaced⟩ := Spaced.of_skipWhite between
    exact ⟨text, left, .integer numeral spaced⟩
  · obtain ⟨middle, inner, rfl⟩ := takes_token.mp takes
    obtain ⟨core, between, is⟩ := Name.of_takes inner
    obtain ⟨text, left, spaced⟩ := Spaced.of_skipWhite between
    exact ⟨text, left, .identifier is spaced⟩

theorem soundFrom_builder {expression : Grammar Value Expr}
    (sound : ∀ later, input.Before later → input.pos < later.pos →
      SoundFrom rules later expression .expr) : SoundFrom rules input (builder expression) .expr :=
  (soundFrom_atom sound).powers.products.sums

end Sound

section Ends

theorem endsFrom_integer : EndsFrom rules input integer := by
  have sign : EndsFrom rules input (((char '-').giving true).or (pure false)) :=
    .or (.map _ (endsFrom_sat _ _)) (endsFrom_pure false)
  have digits : EndsFrom rules input digit.many1 := (endsFrom_sat _ _).rep 1
  exact EndsFrom.token (.refine _ (sign.seq digits))

theorem endsFrom_identifier (reserved : List String) : EndsFrom rules input (identifier reserved) := by
  have letters : EndsFrom rules input alphanumeric.many := (endsFrom_sat _ _).rep 0
  exact EndsFrom.token (.refine _ (.refine _ (EndsFrom.seq (endsFrom_sat _ _) letters)))

theorem endsFrom_parenthesized {expression : Grammar Value α}
    (ends : ∀ later, input.Before later → input.pos < later.pos → EndsFrom rules later expression) :
    EndsFrom rules input (parenthesized expression) := by
  refine EndsFrom.seqLeft (.bind (endsFrom_symbol "(") ?_) (endsFrom_symbol ")")
  intro later left before reads
  have opening : "(".toList = ['('] := rfl
  obtain ⟨stands, behind, _⟩ := (takes_symbol opening).mp reads.takes
  obtain ⟨before', further⟩ := pos_behind_symbol stands
  rw [behind]
  exact ends _ (before.trans before') (Nat.lt_of_le_of_lt before.pos further)

theorem endsFrom_atom {expression : Grammar Value Expr}
    (ends : ∀ later, input.Before later → input.pos < later.pos → EndsFrom rules later expression) :
    EndsFrom rules input (atom expression) :=
  .or (.or (endsFrom_parenthesized ends) (.map _ endsFrom_integer)) (.map _ (endsFrom_identifier []))

theorem endsFrom_builder {expression : Grammar Value Expr}
    (ends : ∀ later, input.Before later → input.pos < later.pos → EndsFrom rules later expression) :
    EndsFrom rules input (builder expression) := by
  have caret : EndsFrom rules input ((symbol "^").giving (Expr.node .pow)) :=
    .map _ (endsFrom_symbol "^")
  have asterisk : EndsFrom rules input ((symbol "*").giving (Expr.node .mul)) :=
    .map _ (endsFrom_symbol "*")
  have sign : EndsFrom rules input (((symbol "+").giving (Expr.node .add)).or
      ((symbol "-").giving (Expr.node .sub))) :=
    .or (.map _ (endsFrom_symbol "+")) (.map _ (endsFrom_symbol "-"))
  have factor : EndsFrom rules input
      ((atom expression).chainRight ((symbol "^").giving (Expr.node .pow))) :=
    .chain _ _ (endsFrom_atom ends) (caret.seq (endsFrom_atom ends))
  have term : EndsFrom rules input (products
      ((atom expression).chainRight ((symbol "^").giving (Expr.node .pow))) (.node .mul)) :=
    .chain _ _ factor (asterisk.seq factor)
  exact .chain _ _ term (sign.seq term)

end Ends

omit [Text.Classes] in
theorem expression_induction {motive : Input → Prop}
    (step : ∀ input : Input, (∀ later, input.Before later → input.pos < later.pos → motive later) →
      motive input) (input : Input) : motive input := by
  -- Rules are followed into the body of the rule of expressions only behind text.
  induction remaining : input.remaining using Nat.strongRecOn generalizing input with
  | _ remaining ih =>
    exact step input fun later before further => ih _ (remaining ▸ before.remaining_lt further) later rfl

theorem endsFrom_expression (input : Input) : EndsFrom builderRules input (.ref ()) := by
  induction input using expression_induction with
  | step input ih =>
    intro later before
    obtain ⟨answer, reads⟩ := endsFrom_builder ih later before
    exact ⟨answer, reads_ref.mpr (.inl ⟨_, rfl, reads⟩)⟩

theorem soundFrom_expression (input : Input) : SoundFrom builderRules input (.ref ()) .expr := by
  induction input using expression_induction with
  | step input ih =>
    intro later tree next before takes
    exact soundFrom_builder ih before ((takes_ref rfl).mp takes)

end Deferred.Arithmetic
