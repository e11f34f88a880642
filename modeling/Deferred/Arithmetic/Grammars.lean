import Deferred.Arithmetic.Expr
import Deferred.Parsing.Token

/-! Two grammars of arithmetic expressions. One computes their values as it reads them, the other one
builds their trees; the latter also knows names and powers. Each is a body for a rule of expressions,
which it mentions for what stands in parentheses. -/

namespace Deferred.Arithmetic

open Grammar

variable {ρ : Type} {Value : ρ → Type} {α : Type}

def sums [Text.Classes] (item : Grammar Value α) (add sub : α → α → α) : Grammar Value α :=
  item.chainLeft (((symbol "+").giving add).or ((symbol "-").giving sub))

def products [Text.Classes] (item : Grammar Value α) (mul : α → α → α) : Grammar Value α :=
  item.chainLeft ((symbol "*").giving mul)

def parenthesized [Text.Classes] (expression : Grammar Value α) : Grammar Value α :=
  ((symbol "(").seqRight expression).seqLeft (symbol ")")

def evaluator [Text.Classes] (expression : Grammar Value Int64) : Grammar Value Int64 :=
  sums (products ((parenthesized expression).or integer) (· * ·)) (· + ·) (· - ·)

def atom [Text.Classes] (expression : Grammar Value Expr) : Grammar Value Expr :=
  ((parenthesized expression).or (integer.map .int)).or ((identifier []).map .var)

def builder [Text.Classes] (expression : Grammar Value Expr) : Grammar Value Expr :=
  sums
    (products ((atom expression).chainRight ((symbol "^").giving (.node .pow))) (.node .mul))
    (.node .add) (.node .sub)

def evaluatorRules [Text.Classes] : Rules (fun _ : Unit => Int64) :=
  fun rule => some (evaluator (.ref rule))

def builderRules [Text.Classes] : Rules (fun _ : Unit => Expr) :=
  fun rule => some (builder (.ref rule))

end Deferred.Arithmetic
