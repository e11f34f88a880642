import Deferred.Parsing.Characters
import Deferred.Parsing.Combinators
import Deferred.Text.Digit

/-! Decimal numerals whose values fit in a signed word of 64 bits. A negative number is counted
downwards, so that the least word can be read too. -/

namespace Deferred.Grammar

variable {ρ : Type} {Value : ρ → Type}

def word? (value : Int) : Option Int :=
  if -9223372036854775808 ≤ value ∧ value ≤ 9223372036854775807 then some value else none

/-- Appends a digit to a number. Both the shifted number and the sum must be words. -/
def shiftIn (negative : Bool) (value : Int) (c : Char) : Option Int := do
  let digit : Int ← (Text.digitValue? c).map Int.ofNat
  let shifted ← word? (value * 10)
  word? (if negative then shifted - digit else shifted + digit)

def wordOfDigits? (negative : Bool) (digits : List Char) : Option Int64 :=
  (digits.foldlM (shiftIn negative) 0).map Int64.ofInt

def decimal (grammar : Grammar Value (Bool × List Char)) : Grammar Value Int64 :=
  grammar.refine fun value matched =>
    match wordOfDigits? value.1 value.2 with
    | some number => .ok number
    | none => .error ⟨"a number that fits in 64 bits", matched⟩

def unsigned : Grammar Value Int64 :=
  decimal ((pure false).seq digit.many1)

def signed : Grammar Value Int64 :=
  decimal ((((char '-').giving true).or (pure false)).seq digit.many1)

end Deferred.Grammar
