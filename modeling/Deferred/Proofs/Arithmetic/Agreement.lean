import Deferred.Proofs.Arithmetic.Completeness

/-! The grammar of values and the grammar of trees read the same text at every place. Where the builder
fails, the evaluator fails; a tree that has a value stands for what the evaluator reads there; and if what
is left behind a value cannot go on with an operator, the builder stops at the same place. The builder may
read more only where a name or a power follows, and then its tree has no value. -/

namespace Deferred.Arithmetic

open Grammar

variable {ρ ρ' : Type} {Value : ρ → Type} {Value' : ρ' → Type} {rules : Rules Value}
  {rules' : Rules Value'} {input next : Input}

def Expr.Plain : Expr → Prop
  | .int _ => True
  | .var _ | .node .pow _ _ => False
  | .node .add left right | .node .sub left right | .node .mul left right => left.Plain ∧ right.Plain

theorem Expr.plain_iff (tree : Expr) : tree.Plain ↔ ∃ value, tree.value? = some value := by
  induction tree with
  | int value => simp [Plain, value?]
  | var name => simp [Plain, value?]
  | node operator left right ihLeft ihRight =>
    cases operator <;> simp [Plain, value?, ihLeft, ihRight, Option.bind_eq_some_iff]

def Computes (compute : Int64 → Int64 → Int64) (combine : Expr → Expr → Expr) : Prop :=
  ∀ left right value, (combine left right).value? = some value ↔
    ∃ a b, left.value? = some a ∧ right.value? = some b ∧ compute a b = value

theorem computes_add : Computes (· + ·) (.node .add) := by
  intro left right value
  simp [Expr.value?, Option.bind_eq_some_iff]

theorem computes_sub : Computes (· - ·) (.node .sub) := by
  intro left right value
  simp [Expr.value?, Option.bind_eq_some_iff]

theorem computes_mul : Computes (· * ·) (.node .mul) := by
  intro left right value
  simp [Expr.value?, Option.bind_eq_some_iff]

/-- Two grammars of operators know the same marks, and give them meanings that belong together. -/
structure SameMarks (rules : Rules Value) (rules' : Rules Value')
    (computing : Grammar Value (Int64 → Int64 → Int64)) (combining : Grammar Value' (Expr → Expr → Expr)) :
    Prop where
  fails : ∀ {input}, Fails rules' combining input ↔ Fails rules computing input
  computes : ∀ {input combine next}, Takes rules' combining input combine next →
    ∃ compute, Takes rules computing input compute next ∧ Computes compute combine
  combines : ∀ {input compute next}, Takes rules computing input compute next →
    ∃ combine, Takes rules' combining input combine next ∧ Computes compute combine

theorem sameMarks_symbol {text : String} {c : Char} (single : text.toList = [c])
    {compute : Int64 → Int64 → Int64} {combine : Expr → Expr → Expr} (same : Computes compute combine) :
    SameMarks rules rules' ((symbol text).giving compute) ((symbol text).giving combine) := by
  constructor
  · intro input
    rw [giving, giving, fails_map, fails_map, fails_symbol single, fails_symbol single]
  · intro input combine' next takes
    simp only [giving, takes_map, takes_symbol single] at takes ⊢
    obtain ⟨inner, stands, rfl⟩ := takes
    exact ⟨compute, ⟨inner, stands, rfl⟩, same⟩
  · intro input compute' next takes
    simp only [giving, takes_map, takes_symbol single] at takes ⊢
    obtain ⟨inner, stands, rfl⟩ := takes
    exact ⟨combine, ⟨inner, stands, rfl⟩, same⟩

theorem SameMarks.or {first second : Grammar Value (Int64 → Int64 → Int64)}
    {first' second' : Grammar Value' (Expr → Expr → Expr)} (marks : SameMarks rules rules' first first')
    (marks' : SameMarks rules rules' second second') :
    SameMarks rules rules' (first.or second) (first'.or second') := by
  constructor
  · intro input
    rw [fails_or, fails_or, marks.fails, marks'.fails]
  · intro input combine next takes
    simp only [takes_or] at takes ⊢
    rcases takes with takes | ⟨fails, takes⟩
    · obtain ⟨compute, found, same⟩ := marks.computes takes
      exact ⟨compute, .inl found, same⟩
    · obtain ⟨compute, found, same⟩ := marks'.computes takes
      exact ⟨compute, .inr ⟨marks.fails.mp fails, found⟩, same⟩
  · intro input compute next takes
    simp only [takes_or] at takes ⊢
    rcases takes with takes | ⟨fails, takes⟩
    · obtain ⟨combine, found, same⟩ := marks.combines takes
      exact ⟨combine, .inl found, same⟩
    · obtain ⟨combine, found, same⟩ := marks'.combines takes
      exact ⟨combine, .inr ⟨marks.fails.mpr fails, found⟩, same⟩

structure Agree (rules : Rules Value) (rules' : Rules Value') (symbol : Nonterminal)
    (evaluating : Grammar Value Int64) (building : Grammar Value' Expr) (input : Input) : Prop where
  fails : Fails rules' building input → Fails rules evaluating input
  evaluates : ∀ {tree value next}, Takes rules' building input tree next → tree.value? = some value →
    Takes rules evaluating input value next
  builds : ∀ {value next}, Takes rules evaluating input value next → Follows symbol next.rest →
    ∃ tree, Takes rules' building input tree next ∧ tree.value? = some value

def AgreeFrom (rules : Rules Value) (rules' : Rules Value') (symbol : Nonterminal)
    (evaluating : Grammar Value Int64) (building : Grammar Value' Expr) (input : Input) : Prop :=
  ∀ later, input.Before later → Agree rules rules' symbol evaluating building later

theorem AgreeFrom.later {symbol : Nonterminal} {evaluating : Grammar Value Int64}
    {building : Grammar Value' Expr} {later : Input}
    (agree : AgreeFrom rules rules' symbol evaluating building input) (before : input.Before later) :
    AgreeFrom rules rules' symbol evaluating building later :=
  fun last before' => agree last (before.trans before')

section Chain

variable {operand chain : Nonterminal} {meaning : Meaning}
  {computing : Grammar Value (Int64 → Int64 → Int64)} {combining : Grammar Value' (Expr → Expr → Expr)}
  {evaluating : Grammar Value Int64} {building : Grammar Value' Expr}

def foldValues (first : Int64) (pairs : List ((Int64 → Int64 → Int64) × Int64)) : Int64 :=
  pairs.foldl (fun left pair => pair.1 left pair.2) first

theorem fails_pair (marks : SameMarks rules rules' computing combining)
    (agree : AgreeFrom rules rules' operand evaluating building input)
    (fails : Fails rules' (combining.seq building) input) :
    Fails rules (computing.seq evaluating) input := by
  rw [fails_seq] at fails ⊢
  rcases fails with fails | ⟨combine, middle, takes, fails⟩
  · exact .inl (marks.fails.mp fails)
  · obtain ⟨compute, takes', -⟩ := marks.computes takes
    exact .inr ⟨compute, middle, takes', (agree middle takes.before).fails fails⟩

theorem evaluates_pair (marks : SameMarks rules rules' computing combining)
    (agree : AgreeFrom rules rules' operand evaluating building input)
    {pair : (Expr → Expr → Expr) × Expr} {first : Expr} {value : Int64}
    (takes : Takes rules' (combining.seq building) input pair next)
    (valued : (pair.1 first pair.2).value? = some value) :
    ∃ start computed, first.value? = some start ∧
      Takes rules (computing.seq evaluating) input computed next ∧ computed.1 start computed.2 = value := by
  obtain ⟨middle, mark, takes⟩ := takes_seq.mp takes
  obtain ⟨compute, mark', same⟩ := marks.computes mark
  obtain ⟨start, second, valued, valued', result⟩ := (same first pair.2 value).mp valued
  have found := (agree middle mark.before).evaluates takes valued'
  exact ⟨start, (compute, second), valued, takes_seq.mpr ⟨middle, mark', found⟩, result⟩

theorem builds_pair (marks : SameMarks rules rules' computing combining)
    (agree : AgreeFrom rules rules' operand evaluating building input)
    {pair : (Int64 → Int64 → Int64) × Int64} {first : Expr} {start : Int64}
    (takes : Takes rules (computing.seq evaluating) input pair next) (follows : Follows operand next.rest)
    (valued : first.value? = some start) :
    ∃ built, Takes rules' (combining.seq building) input built next ∧
      (built.1 first built.2).value? = some (pair.1 start pair.2) := by
  obtain ⟨middle, mark, takes⟩ := takes_seq.mp takes
  obtain ⟨combine, mark', same⟩ := marks.combines mark
  obtain ⟨tree, found, valued'⟩ := (agree middle mark.before).builds takes follows
  refine ⟨(combine, tree), takes_seq.mpr ⟨middle, mark', found⟩, ?_⟩
  exact (same first tree _).mpr ⟨start, pair.2, valued, valued', rfl⟩

/-- The evaluator takes the pairs of the builder if the tree that is made of them has a value. -/
theorem collects_values (marks : SameMarks rules rules' computing combining)
    (agree : AgreeFrom rules rules' operand evaluating building input) {later : Input} {first : Expr}
    {value : Int64} {items : Items ((Expr → Expr → Expr) × Expr)} (before : input.Before later)
    (collects : Collects (Reads rules' (combining.seq building)) later items)
    (valued : (foldPairs first items.values).value? = some value) :
    ∃ start found, first.value? = some start ∧
      Collects (Reads rules (computing.seq evaluating)) later found ∧ found.next = items.next ∧
        foldValues start found.values = value := by
  induction collects generalizing first with
  | failed reads =>
    obtain ⟨error, reads'⟩ := fails_pair marks (agree.later before) ⟨_, reads⟩
    exact ⟨value, _, valued, .failed reads', rfl, rfl⟩
  | stopped reads still =>
    obtain ⟨start, computed, valued, takes, result⟩ :=
      evaluates_pair marks (agree.later before) reads.takes valued
    exact ⟨start, _, valued, .stopped takes still, rfl, result⟩
  | more reads further _ ih =>
    obtain ⟨middle, found, folded, collects, same, rfl⟩ := ih (before.trans reads.takes.before) valued
    obtain ⟨start, computed, valued', takes, rfl⟩ :=
      evaluates_pair marks (agree.later before) reads.takes folded
    exact ⟨start, _, valued', .more takes further collects, same, rfl⟩

theorem follows_of_collects (ops : Operators rules' combining meaning)
    (level : Level operand chain meaning) (marks : SameMarks rules rules' computing combining)
    {items : Items ((Int64 → Int64 → Int64) × Int64)}
    (collects : Collects (Reads rules (computing.seq evaluating)) input items)
    (follows : Follows chain items.next.rest) : Follows operand input.rest := by
  have standing : ∀ {pair next}, Takes rules (computing.seq evaluating) input pair next →
      Follows operand input.rest := by
    intro pair next takes c stands
    obtain ⟨middle, mark, -⟩ := takes_seq.mp takes
    obtain ⟨combine, mark', -⟩ := marks.combines mark
    obtain ⟨d, stands', means, -⟩ := ops.takes.mp mark'
    rw [Input.head, rest_skipWhite] at stands'
    obtain rfl : c = d := Option.some.inj (stands.symm.trans stands')
    exact level.marks c combine means
  cases collects with
  | failed reads => exact fun c stands => level.subset c (follows c stands)
  | stopped reads still => exact standing reads.takes
  | more reads further collects => exact standing reads.takes

/-- The builder takes the pairs of the evaluator if no further operator can follow. -/
theorem collects_trees (ops : Operators rules' combining meaning) (level : Level operand chain meaning)
    (marks : SameMarks rules rules' computing combining)
    (agree : AgreeFrom rules rules' operand evaluating building input) {later : Input} {first : Expr}
    {start : Int64} {items : Items ((Int64 → Int64 → Int64) × Int64)} (before : input.Before later)
    (collects : Collects (Reads rules (computing.seq evaluating)) later items)
    (follows : Follows chain items.next.rest) (valued : first.value? = some start) :
    ∃ found, Collects (Reads rules' (combining.seq building)) later found ∧ found.next = items.next ∧
      (foldPairs first found.values).value? = some (foldValues start items.values) := by
  induction collects generalizing first start with
  | @failed place error reads =>
    have none : Fails rules' combining place := by
      refine ops.fails.mpr fun c stands => level.before c (follows c ?_)
      rwa [Input.head, rest_skipWhite] at stands
    obtain ⟨error, reads'⟩ : Fails rules' (combining.seq building) place := fails_seq.mpr (.inl none)
    exact ⟨_, .failed reads', rfl, valued⟩
  | stopped reads still =>
    obtain ⟨built, takes, valued⟩ := builds_pair marks (agree.later before) reads.takes
      (fun c stands => level.subset c (follows c stands)) valued
    exact ⟨_, .stopped takes still, rfl, valued⟩
  | more reads further collects ih =>
    obtain ⟨built, takes, valued⟩ := builds_pair marks (agree.later before) reads.takes
      (follows_of_collects ops level marks collects follows) valued
    obtain ⟨found, collects, same, valued⟩ := ih (before.trans reads.takes.before) follows valued
    exact ⟨_, .more takes further collects, same, valued⟩

theorem AgreeFrom.chainLeft (ops : Operators rules' combining meaning)
    (level : Level operand chain meaning) (marks : SameMarks rules rules' computing combining)
    (agree : AgreeFrom rules rules' operand evaluating building input) :
    AgreeFrom rules rules' chain (evaluating.chainLeft computing) (building.chainLeft combining) input := by
  intro later before
  constructor
  · intro fails
    exact fails_chain.mpr ((agree later before).fails (fails_chain.mp fails))
  · intro tree value next takes valued
    obtain ⟨head, middle, items, operand, collects, rfl, rfl⟩ := takes_chain.mp takes
    obtain ⟨start, found, valued', collects', same, rfl⟩ :=
      collects_values marks agree (before.trans operand.before) collects valued
    have operand' := (agree later before).evaluates operand valued'
    exact takes_chain.mpr ⟨start, middle, found, operand', collects', rfl, same.symm⟩
  · intro value next takes follows
    obtain ⟨start, middle, items, operand, collects, rfl, rfl⟩ := takes_chain.mp takes
    obtain ⟨head, operand', valued⟩ := (agree later before).builds operand
      (follows_of_collects ops level marks collects follows)
    obtain ⟨found, collects', same, valued⟩ := collects_trees ops level marks agree
      (before.trans operand.before) collects follows valued
    exact ⟨_, takes_chain.mpr ⟨head, middle, found, operand', collects', rfl, same.symm⟩, valued⟩

end Chain

section Factor

variable {evaluating : Grammar Value Int64} {building : Grammar Value' Expr}

theorem collects_powers (head : Expr) {items : Items ((Expr → Expr → Expr) × Expr)}
    (collects : Collects (Reads rules' (((symbol "^").giving (.node .pow)).seq building)) input items) :
    items.values = [] ∧ items.next = input ∨ (foldPairsRight head items.values).value? = none := by
  have power : ∀ {pair next}, Takes rules' (((symbol "^").giving (Expr.node .pow)).seq building) input
      pair next → ∀ rest, (foldPairsRight head (pair :: rest)).value? = none := by
    intro pair next takes rest
    obtain ⟨combine, second⟩ := pair
    obtain ⟨_, mark, -⟩ := takes_seq.mp takes
    obtain ⟨c, -, means, -⟩ := operators_power.takes.mp mark
    obtain ⟨-, rfl⟩ := Meaning.single_eq_some.mp means
    rfl
  cases collects with
  | failed reads => exact .inl ⟨rfl, rfl⟩
  | stopped reads still => exact .inr (power reads.takes [])
  | more reads further collects => exact .inr (power reads.takes _)

/-- The builder may go on with powers where the evaluator stops. -/
theorem AgreeFrom.powers (agree : AgreeFrom rules rules' .exp evaluating building input) :
    AgreeFrom rules rules' .factor evaluating
      (building.chainRight ((symbol "^").giving (.node .pow))) input := by
  intro later before
  constructor
  · intro fails
    exact (agree later before).fails (fails_chain.mp fails)
  · intro tree value next takes valued
    obtain ⟨head, middle, items, operand, collects, rfl, rfl⟩ := takes_chain.mp takes
    rcases collects_powers head collects with ⟨none, same⟩ | worthless
    · rw [none] at valued
      rw [same]
      exact (agree later before).evaluates operand valued
    · rw [worthless] at valued
      exact absurd valued (by simp)
  · intro value next takes follows
    have follows' : Follows .exp next.rest := fun c stands => level_power.subset c (follows c stands)
    obtain ⟨tree, operand, valued⟩ := (agree later before).builds takes follows'
    have none : Fails rules' ((symbol "^").giving (Expr.node .pow)) next := by
      refine operators_power.fails.mpr fun c stands => level_power.before c (follows c ?_)
      rwa [Input.head, rest_skipWhite] at stands
    obtain ⟨error, reads⟩ : Fails rules' (((symbol "^").giving (Expr.node .pow)).seq building) next :=
      fails_seq.mpr (.inl none)
    exact ⟨tree, takes_chain.mpr ⟨tree, next, _, operand, .failed reads, rfl, rfl⟩, valued⟩

end Factor

section Atom

variable {evaluating : Grammar Value Int64} {building : Grammar Value' Expr}

theorem takes_integer_of_takes {value : Int64} (takes : Takes rules integer input value next) :
    Takes rules' integer input value next := by
  obtain ⟨middle, inner, rfl⟩ := takes_token.mp takes
  obtain ⟨negative, behind, digits, sign, run, found⟩ := takes_signed.mp inner
  refine takes_token.mpr ⟨middle, takes_signed.mpr ⟨negative, behind, digits, ?_, ?_, found⟩, rfl⟩
  · exact takes_sign.mpr (takes_sign.mp sign)
  · exact takes_digits.mpr (takes_digits.mp run)

theorem fails_integer_of_fails (fails : Fails rules' integer input) : Fails rules integer input := by
  have ends : EndsFrom rules input integer := endsFrom_integer
  obtain ⟨answer, reads⟩ := ends input (.refl input)
  cases answer with
  | error error => exact ⟨error, reads⟩
  | ok parsed => exact absurd (takes_integer_of_takes reads.takes) fails.not_takes

theorem head_ne_of_takes_integer {value : Int64} (takes : Takes rules integer input value next) :
    input.skipWhite.head ≠ some '(' := by
  obtain ⟨middle, inner, rfl⟩ := takes_token.mp takes
  obtain ⟨core, between, numeral⟩ := Numeral.of_takes inner
  obtain ⟨c, begins, kind⟩ := numeral.head
  rw [Input.head, between, List.head?_append, begins, Option.some_or]
  rintro ⟨⟩
  rcases kind with minus | digit
  · exact absurd minus (by decide)
  · exact absurd digit (by decide)

theorem follows_of_closing (closes : input.skipWhite.head = some ')') : Follows .expr input.rest := by
  intro c stands
  rw [Input.head, rest_skipWhite] at closes
  obtain rfl : c = ')' := Option.some.inj (stands.symm.trans closes)
  decide

theorem builds_parenthesized
    (agree : ∀ later, input.Before later → input.pos < later.pos →
      AgreeFrom rules rules' .expr evaluating building later) {value : Int64}
    (takes : Takes rules (parenthesized evaluating) input value next) :
    ∃ tree, Takes rules' (parenthesized building) input tree next ∧ tree.value? = some value := by
  obtain ⟨middle, opens, inner, closes, rfl⟩ := takes_parenthesized.mp takes
  obtain ⟨before, further⟩ := pos_behind_symbol opens
  obtain ⟨tree, found, valued⟩ :=
    (agree _ before further _ (.refl _)).builds inner (follows_of_closing closes)
  exact ⟨tree, takes_parenthesized.mpr ⟨middle, opens, found, closes, rfl⟩, valued⟩

/-- An expression in parentheses. Where the evaluator would take one, the builder takes one, since the
closing parenthesis stops both. -/
theorem AgreeFrom.parenthesized (agree : ∀ later, input.Before later → input.pos < later.pos →
      AgreeFrom rules rules' .expr evaluating building later)
    (ends : ∀ later, input.Before later → input.pos < later.pos → EndsFrom rules later evaluating) :
    AgreeFrom rules rules' .exp (parenthesized evaluating) (parenthesized building) input := by
  intro later before
  have agree' : ∀ last, later.Before last → later.pos < last.pos →
      AgreeFrom rules rules' .expr evaluating building last := fun last before' further =>
    agree last (before.trans before') (Nat.lt_of_le_of_lt before.pos further)
  constructor
  · intro fails
    obtain ⟨answer, reads⟩ := endsFrom_parenthesized ends later before
    cases answer with
    | error error => exact ⟨error, reads⟩
    | ok parsed =>
      obtain ⟨tree, takes, -⟩ := builds_parenthesized agree' reads.takes
      exact absurd takes fails.not_takes
  · intro tree value next takes valued
    obtain ⟨middle, opens, inner, closes, rfl⟩ := takes_parenthesized.mp takes
    obtain ⟨before', further⟩ := pos_behind_symbol opens
    have found := (agree' _ before' further _ (.refl _)).evaluates inner valued
    exact takes_parenthesized.mpr ⟨middle, opens, found, closes, rfl⟩
  · intro value next takes _
    exact builds_parenthesized agree' takes

theorem AgreeFrom.atom (agree : ∀ later, input.Before later → input.pos < later.pos →
      AgreeFrom rules rules' .expr evaluating building later)
    (ends : ∀ later, input.Before later → input.pos < later.pos → EndsFrom rules later evaluating) :
    AgreeFrom rules rules' .exp ((Arithmetic.parenthesized evaluating).or integer) (atom building)
      input := by
  intro later before
  have inner := AgreeFrom.parenthesized agree ends later before
  constructor
  · intro fails
    simp only [Arithmetic.atom, fails_or, fails_map] at fails
    exact fails_or.mpr ⟨inner.fails fails.1.1, fails_integer_of_fails fails.1.2⟩
  · intro tree value next takes valued
    simp only [Arithmetic.atom, takes_or, takes_map] at takes
    rcases takes with (takes | ⟨fails, number, takes, rfl⟩) | ⟨_, name, _, rfl⟩
    · exact takes_or.mpr (.inl (inner.evaluates takes valued))
    · obtain rfl : number = value := Option.some.inj valued
      exact takes_or.mpr (.inr ⟨inner.fails fails, takes_integer_of_takes takes⟩)
    · exact absurd valued (by simp [Expr.value?])
  · intro value next takes follows
    simp only [Arithmetic.atom, takes_or, takes_map]
    rcases takes_or.mp takes with takes | ⟨_, takes⟩
    · obtain ⟨tree, found, valued⟩ := inner.builds takes follows
      exact ⟨tree, .inl (.inl found), valued⟩
    · have other : Fails rules' (Arithmetic.parenthesized building) later :=
        fails_parenthesized (head_ne_of_takes_integer takes)
      exact ⟨.int value, .inl (.inr ⟨other, value, takes_integer_of_takes takes, rfl⟩), rfl⟩

end Atom

theorem endsFrom_evaluator {expression : Grammar Value Int64}
    (ends : ∀ later, input.Before later → input.pos < later.pos → EndsFrom rules later expression) :
    EndsFrom rules input (evaluator expression) := by
  have asterisk : EndsFrom rules input ((symbol "*").giving fun left right : Int64 => left * right) :=
    .map _ (endsFrom_symbol "*")
  have sign : EndsFrom rules input (((symbol "+").giving fun left right : Int64 => left + right).or
      ((symbol "-").giving fun left right => left - right)) :=
    .or (.map _ (endsFrom_symbol "+")) (.map _ (endsFrom_symbol "-"))
  have factor : EndsFrom rules input ((parenthesized expression).or integer) :=
    .or (endsFrom_parenthesized ends) endsFrom_integer
  have term : EndsFrom rules input (products ((parenthesized expression).or integer) (· * ·)) :=
    .chain _ _ factor (asterisk.seq factor)
  exact .chain _ _ term (sign.seq term)

theorem endsFrom_value (input : Input) : EndsFrom evaluatorRules input (.ref ()) := by
  induction input using expression_induction with
  | step input ih =>
    intro later before
    obtain ⟨answer, reads⟩ := endsFrom_evaluator ih later before
    exact ⟨answer, reads_ref.mpr (.inl ⟨_, rfl, reads⟩)⟩

theorem AgreeFrom.body {expression : Grammar Value Int64} {expression' : Grammar Value' Expr}
    (agree : ∀ later, input.Before later → input.pos < later.pos →
      AgreeFrom rules rules' .expr expression expression' later)
    (ends : ∀ later, input.Before later → input.pos < later.pos → EndsFrom rules later expression) :
    AgreeFrom rules rules' .expr (evaluator expression) (builder expression') input := by
  have asterisk : SameMarks rules rules' ((symbol "*").giving (· * ·)) ((symbol "*").giving (.node .mul)) :=
    sameMarks_symbol rfl computes_mul
  have sign : SameMarks rules rules' (((symbol "+").giving (· + ·)).or ((symbol "-").giving (· - ·)))
      (((symbol "+").giving (.node .add)).or ((symbol "-").giving (.node .sub))) :=
    (sameMarks_symbol rfl computes_add).or (sameMarks_symbol rfl computes_sub)
  have factor := (AgreeFrom.atom agree ends).powers
  exact (factor.chainLeft operators_product level_product asterisk).chainLeft operators_sum level_sum sign

theorem agreeFrom_expression (input : Input) :
    AgreeFrom evaluatorRules builderRules .expr (.ref ()) (.ref ()) input := by
  induction input using expression_induction with
  | step input ih =>
    intro later before
    have agree := AgreeFrom.body ih (fun last _ _ => endsFrom_value last) later before
    have fails_ref : ∀ {place : Input},
        (Fails evaluatorRules (.ref ()) place ↔ Fails evaluatorRules (evaluator (.ref ())) place) ∧
          (Fails builderRules (.ref ()) place ↔ Fails builderRules (builder (.ref ())) place) := by
      intro place
      simp [Fails, reads_ref, evaluatorRules, builderRules]
    constructor
    · exact fun fails => fails_ref.1.mpr (agree.fails (fails_ref.2.mp fails))
    · exact fun takes valued =>
        (takes_ref rfl).mpr (agree.evaluates ((takes_ref rfl).mp takes) valued)
    · intro value next takes follows
      obtain ⟨tree, found, valued⟩ := agree.builds ((takes_ref rfl).mp takes) follows
      exact ⟨tree, (takes_ref rfl).mpr found, valued⟩

theorem takes_complete_value_iff {source : Source} {value : Int64} :
    (∃ next, Takes evaluatorRules (complete (.ref ())) (.ofSource source) value next) ↔
      ∃ tree, (∃ next, Takes builderRules (complete (.ref ())) (.ofSource source) tree next) ∧
        tree.value? = some value := by
  have agree := agreeFrom_expression (.ofSource source) _ (.refl _)
  simp only [complete, seqLeft, takes_bind, takes_map, takes_eof]
  constructor
  · intro given
    obtain ⟨last, value, _, takes, _, ⟨ended, rfl⟩, rfl⟩ := given
    have nothing : Follows .expr last.rest := by
      intro c stands
      rw [ended] at stands
      exact absurd stands (by simp [stripped])
    obtain ⟨tree, found, valued⟩ := agree.builds takes nothing
    exact ⟨tree, ⟨last, tree, last, found, (), ⟨ended, rfl⟩, rfl⟩, valued⟩
  · intro given
    obtain ⟨_, ⟨last, tree, _, takes, _, ⟨ended, rfl⟩, rfl⟩, valued⟩ := given
    exact ⟨last, value, last, agree.evaluates takes valued, (), ⟨ended, rfl⟩, rfl⟩

/-- Waiting for a grammar to read a source gives this answer, on every loop where nothing else is to be
done. -/
def Answers (σ : Type) {α : Type} [Storable (Except ParseError (Parsed α)) σ] (rules : Rules Value)
    (grammar : Grammar Value α) (source : Source) (answer : Except ParseError (Parsed α)) : Prop :=
  ∃ ran least, ∀ bound > least, ∀ loop : Loop σ, loop.Vacant → ∃ after,
    loop.waitFor bound (parse rules grammar (.ofSource source)) = some ⟨some answer, ran, after⟩ ∧
      after.Vacant

theorem exists_answer {σ α : Type} [Storable (Except ParseError (Parsed α)) σ] {grammar : Grammar Value α}
    {source : Source} (ends : EndsFrom rules (.ofSource source) grammar) :
    ∃ answer, Answers σ rules grammar source answer ∧
      ∀ value, (∃ parsed, answer = .ok parsed ∧ parsed.value = value) ↔
        ∃ next, Takes rules grammar (.ofSource source) value next := by
  obtain ⟨answer, fuel, found⟩ := ends _ (.refl _)
  obtain ⟨ran, waited⟩ := @exists_waitFor_of_read _ _ σ _ _ _ _ _ _ _ found
  refine ⟨answer, ⟨ran, fuel + 2 * ran, fun bound enough loop vacant => ?_⟩, fun value => ?_⟩
  · obtain ⟨after, whole, -, empty⟩ := waited bound enough loop vacant
    exact ⟨after, whole, empty⟩
  · have reads : Reads rules grammar (.ofSource source) answer := ⟨fuel, found⟩
    constructor
    · intro given
      obtain ⟨parsed, rfl, rfl⟩ := given
      exact ⟨parsed.next, reads.takes⟩
    · intro given
      obtain ⟨next, takes⟩ := given
      exact ⟨_, reads.unique takes, rfl⟩

/-- A source has a value just where it has a tree without names and powers that has this value, with
arithmetic modulo 2 ^ 64; and both readings settle on every source. -/
theorem evaluator_agrees_with_builder {σ τ : Type} [Storable (Except ParseError (Parsed Int64)) σ]
    [Storable (Except ParseError (Parsed Expr)) τ] (source : Source) :
    ∃ evaluated built, Answers σ evaluatorRules (complete (.ref ())) source evaluated ∧
      Answers τ builderRules (complete (.ref ())) source built ∧
      ∀ value, (∃ parsed, evaluated = .ok parsed ∧ parsed.value = value) ↔
        ∃ parsed, built = .ok parsed ∧ parsed.value.Plain ∧ parsed.value.value? = some value := by
  obtain ⟨evaluated, answers, takes⟩ := @exists_answer _ _ evaluatorRules σ _ _ _ source
    (EndsFrom.seqLeft (endsFrom_value _) endsFrom_eof)
  obtain ⟨built, answers', takes'⟩ := @exists_answer _ _ builderRules τ _ _ _ source
    (EndsFrom.seqLeft (endsFrom_expression _) endsFrom_eof)
  refine ⟨evaluated, built, answers, answers', fun value => ?_⟩
  refine (takes value).trans (takes_complete_value_iff.trans ?_)
  constructor
  · intro given
    obtain ⟨tree, found, valued⟩ := given
    obtain ⟨parsed, rfl, rfl⟩ := (takes' tree).mpr found
    exact ⟨parsed, rfl, parsed.value.plain_iff.mpr ⟨value, valued⟩, valued⟩
  · intro given
    obtain ⟨parsed, rfl, -, valued⟩ := given
    exact ⟨parsed.value, (takes' _).mp ⟨parsed, rfl, rfl⟩, valued⟩

end Deferred.Arithmetic
