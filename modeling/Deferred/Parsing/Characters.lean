import Deferred.Parsing.Grammar
import Deferred.Text.Classes

/-! Grammars of single characters. -/

namespace Deferred.Grammar

variable {ρ : Type} {Value : ρ → Type}

def item : Grammar Value Char :=
  sat (fun _ => true) "any char"

def char (expected : Char) : Grammar Value Char :=
  sat (· == expected) (shown expected)

def digit : Grammar Value Char :=
  sat Char.isDigit "digit"

def lower : Grammar Value Char :=
  sat Char.isLower "lower case letter"

def upper : Grammar Value Char :=
  sat Char.isUpper "upper case letter"

def letter [Text.Classes] : Grammar Value Char :=
  sat Text.isLetter "letter"

def alphanumeric [Text.Classes] : Grammar Value Char :=
  sat Text.isAlphanumeric "letter or digit"

def whitespace [Text.Classes] : Grammar Value Char :=
  sat Text.isWhite "white space"

def nonWhitespace [Text.Classes] : Grammar Value Char :=
  sat (fun c => !Text.isWhite c) "non white space"

end Deferred.Grammar
