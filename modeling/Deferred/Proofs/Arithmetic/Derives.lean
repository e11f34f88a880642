import Deferred.Arithmetic.Expr
import Deferred.Parsing.Combinators
import Deferred.Text.Classes

/-! The grammar of arithmetic expressions as it is documented, as derivations of texts without a word on
how they are read. Sums, differences and products associate to the left, powers to the right. A chain of
operators is also a first operand and a list of pairs behind it. -/

namespace Deferred.Arithmetic

def Spaced [Text.Classes] (core text : List Char) : Prop :=
  ∃ before behind, text = before ++ core ++ behind ∧ (∀ c ∈ before, Text.isWhite c = true) ∧
    ∀ c ∈ behind, Text.isWhite c = true

def decimalValue (digits : List Char) : Nat :=
  digits.foldl (fun value c => value * 10 + (c.toNat - '0'.toNat)) 0

/-- An optional minus sign and ASCII digits whose value is a signed word of 64 bits. -/
inductive Numeral : List Char → Int64 → Prop
  | plain {digits : List Char} {number : Int64} (nonempty : digits ≠ [])
      (each : ∀ c ∈ digits, c.isDigit = true) (value : number.toInt = decimalValue digits) :
      Numeral digits number
  | negative {digits : List Char} {number : Int64} (nonempty : digits ≠ [])
      (each : ∀ c ∈ digits, c.isDigit = true) (value : number.toInt = -decimalValue digits) :
      Numeral ('-' :: digits) number

inductive Name [Text.Classes] : List Char → String → Prop
  | mk {c rest} (letter : Text.isLetter c = true) (each : ∀ d ∈ rest, Text.isAlphanumeric d = true) :
      Name (c :: rest) (String.ofList (c :: rest))

inductive Nonterminal where
  | expr
  | term
  | factor
  | exp
deriving DecidableEq

inductive Derives [Text.Classes] : Nonterminal → List Char → Expr → Prop
  | term {text tree} (derives : Derives .term text tree) : Derives .expr text tree
  | add {left tree operator right tree'} (derives : Derives .expr left tree)
      (plus : Spaced ['+'] operator) (derives' : Derives .term right tree') :
      Derives .expr (left ++ operator ++ right) (.node .add tree tree')
  | sub {left tree operator right tree'} (derives : Derives .expr left tree)
      (minus : Spaced ['-'] operator) (derives' : Derives .term right tree') :
      Derives .expr (left ++ operator ++ right) (.node .sub tree tree')
  | factor {text tree} (derives : Derives .factor text tree) : Derives .term text tree
  | mul {left tree operator right tree'} (derives : Derives .term left tree)
      (asterisk : Spaced ['*'] operator) (derives' : Derives .factor right tree') :
      Derives .term (left ++ operator ++ right) (.node .mul tree tree')
  | exp {text tree} (derives : Derives .exp text tree) : Derives .factor text tree
  | pow {left tree operator right tree'} (derives : Derives .exp left tree)
      (caret : Spaced ['^'] operator) (derives' : Derives .factor right tree') :
      Derives .factor (left ++ operator ++ right) (.node .pow tree tree')
  | parenthesized {opening text tree closing} (opens : Spaced ['('] opening)
      (derives : Derives .expr text tree) (closes : Spaced [')'] closing) :
      Derives .exp (opening ++ text ++ closing) tree
  | integer {core text number} (numeral : Numeral core number) (spaced : Spaced core text) :
      Derives .exp text (.int number)
  | identifier {core text name} (is : Name core name) (spaced : Spaced core text) :
      Derives .exp text (.var name)

abbrev Meaning : Type :=
  Char → Option (Expr → Expr → Expr)

namespace Meaning

def single (c : Char) (combine : Expr → Expr → Expr) : Meaning :=
  fun d => if d = c then some combine else none

def sum : Meaning :=
  fun c => (single '+' (.node .add) c).or (single '-' (.node .sub) c)

def product : Meaning :=
  single '*' (.node .mul)

def power : Meaning :=
  single '^' (.node .pow)

theorem single_eq_some {c d : Char} {combine combine' : Expr → Expr → Expr} :
    single c combine d = some combine' ↔ d = c ∧ combine = combine' := by
  rw [single]
  split
  next same => simp [same]
  next other => simp [other]

theorem sum_eq_some {c : Char} {combine : Expr → Expr → Expr} : sum c = some combine ↔
    c = '+' ∧ .node .add = combine ∨ c = '-' ∧ .node .sub = combine := by
  rw [sum, Option.or_eq_some_iff, single_eq_some, single_eq_some, single]
  constructor
  · intro given
    rcases given with plus | ⟨_, minus⟩
    · exact .inl plus
    · exact .inr minus
  · intro given
    rcases given with plus | ⟨rfl, rfl⟩
    · exact .inl plus
    · exact .inr ⟨by decide, rfl, rfl⟩

end Meaning

inductive Pairs [Text.Classes] (operand : Nonterminal) (meaning : Meaning) :
    List Char → List ((Expr → Expr → Expr) × Expr) → Prop
  | nil : Pairs operand meaning [] []
  | cons {c combine operator text tree rest pairs} (means : meaning c = some combine)
      (mark : Spaced [c] operator) (derives : Derives operand text tree)
      (behind : Pairs operand meaning rest pairs) :
      Pairs operand meaning (operator ++ text ++ rest) ((combine, tree) :: pairs)

def foldPairs (first : Expr) (pairs : List ((Expr → Expr → Expr) × Expr)) : Expr :=
  pairs.foldl (fun left pair => pair.1 left pair.2) first

variable [Text.Classes] {text : List Char} {tree : Expr}

theorem Pairs.append {operand : Nonterminal} {meaning : Meaning} {rest rest' : List Char}
    {pairs pairs' : List ((Expr → Expr → Expr) × Expr)} (first : Pairs operand meaning rest pairs)
    (second : Pairs operand meaning rest' pairs') :
    Pairs operand meaning (rest ++ rest') (pairs ++ pairs') := by
  induction first with
  | nil => exact second
  | cons means mark derives _ ih =>
    rw [List.append_assoc, List.cons_append]
    exact .cons means mark derives ih

theorem Pairs.single {operand : Nonterminal} {meaning : Meaning} {c : Char} {combine : Expr → Expr → Expr}
    {operator text : List Char} {tree : Expr} (means : meaning c = some combine)
    (mark : Spaced [c] operator) (derives : Derives operand text tree) :
    Pairs operand meaning (operator ++ text) [(combine, tree)] := by
  have whole := Pairs.cons means mark derives .nil
  rwa [List.append_nil] at whole

theorem derives_foldPairs {operand chain : Nonterminal} {meaning : Meaning}
    (step : ∀ {c combine left tree operator right tree'}, meaning c = some combine →
      Derives chain left tree → Spaced [c] operator → Derives operand right tree' →
        Derives chain (left ++ operator ++ right) (combine tree tree'))
    {first rest : List Char} {pairs : List ((Expr → Expr → Expr) × Expr)}
    (derives : Derives chain first tree) (behind : Pairs operand meaning rest pairs) :
    Derives chain (first ++ rest) (foldPairs tree pairs) := by
  induction behind generalizing first tree with
  | nil => rwa [List.append_nil]
  | cons means mark derives' _ ih =>
    rw [← List.append_assoc, ← List.append_assoc]
    exact ih (step means derives mark derives')

theorem derives_expr_iff : Derives .expr text tree ↔ ∃ first head rest pairs, text = first ++ rest ∧
    Derives .term first head ∧ Pairs .term .sum rest pairs ∧ tree = foldPairs head pairs := by
  constructor
  case mp =>
    intro derives
    generalize same : Nonterminal.expr = symbol at derives
    induction derives with
    | term derives => exact ⟨_, _, [], [], (List.append_nil _).symm, derives, .nil, rfl⟩
    | add _ mark derives' ih =>
      obtain ⟨first, head, rest, pairs, rfl, derives, behind, rfl⟩ := ih same
      have step := behind.append (.single rfl mark derives')
      exact ⟨first, head, _, _, by simp only [List.append_assoc], derives, step, by simp [foldPairs]⟩
    | sub _ mark derives' ih =>
      obtain ⟨first, head, rest, pairs, rfl, derives, behind, rfl⟩ := ih same
      have step := behind.append (.single rfl mark derives')
      exact ⟨first, head, _, _, by simp only [List.append_assoc], derives, step, by simp [foldPairs]⟩
    | _ => cases same
  case mpr =>
    intro given
    obtain ⟨first, head, rest, pairs, rfl, derives, behind, rfl⟩ := given
    refine derives_foldPairs ?_ derives.term behind
    intro c combine _ _ _ _ _ means left mark right
    rcases Meaning.sum_eq_some.mp means with ⟨rfl, rfl⟩ | ⟨rfl, rfl⟩
    · exact .add left mark right
    · exact .sub left mark right

theorem derives_term_iff : Derives .term text tree ↔ ∃ first head rest pairs, text = first ++ rest ∧
    Derives .factor first head ∧ Pairs .factor .product rest pairs ∧ tree = foldPairs head pairs := by
  constructor
  case mp =>
    intro derives
    generalize same : Nonterminal.term = symbol at derives
    induction derives with
    | factor derives => exact ⟨_, _, [], [], (List.append_nil _).symm, derives, .nil, rfl⟩
    | mul _ mark derives' ih =>
      obtain ⟨first, head, rest, pairs, rfl, derives, behind, rfl⟩ := ih same
      have step := behind.append (.single rfl mark derives')
      exact ⟨first, head, _, _, by simp only [List.append_assoc], derives, step, by simp [foldPairs]⟩
    | _ => cases same
  case mpr =>
    intro given
    obtain ⟨first, head, rest, pairs, rfl, derives, behind, rfl⟩ := given
    refine derives_foldPairs ?_ derives.factor behind
    intro c combine _ _ _ _ _ means left mark right
    obtain ⟨rfl, rfl⟩ := Meaning.single_eq_some.mp means
    exact .mul left mark right

/-- Powers lean to the other side: the pairs are folded from the right. -/
theorem derives_factor_iff : Derives .factor text tree ↔ ∃ first head rest pairs, text = first ++ rest ∧
    Derives .exp first head ∧ Pairs .exp .power rest pairs ∧ tree = foldPairsRight head pairs := by
  constructor
  case mp =>
    intro derives
    generalize same : Nonterminal.factor = symbol at derives
    induction derives with
    | exp derives => exact ⟨_, _, [], [], (List.append_nil _).symm, derives, .nil, rfl⟩
    | pow left mark _ _ ih =>
      obtain ⟨first, head, rest, pairs, rfl, derives, behind, rfl⟩ := ih same
      exact ⟨_, _, _, _, by simp only [List.append_assoc], left, .cons rfl mark derives behind, rfl⟩
    | _ => cases same
  case mpr =>
    intro given
    obtain ⟨first, head, rest, pairs, rfl, derives, behind, rfl⟩ := given
    induction behind generalizing first head with
    | nil =>
      rw [List.append_nil]
      exact .exp derives
    | cons means mark derives' _ ih =>
      obtain ⟨rfl, rfl⟩ := Meaning.single_eq_some.mp means
      rw [List.append_assoc, ← List.append_assoc]
      exact .pow derives mark (ih _ _ derives')

end Deferred.Arithmetic
