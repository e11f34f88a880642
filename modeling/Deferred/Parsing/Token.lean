import Deferred.Parsing.Number

/-! Tokens: texts with white space around them. -/

namespace Deferred.Grammar

variable {ρ : Type} {Value : ρ → Type} {α : Type}

def spaces [Text.Classes] : Grammar Value (List Char) :=
  whitespace.many

def trimLeft [Text.Classes] (grammar : Grammar Value α) : Grammar Value α :=
  spaces.seqRight grammar

def trimRight [Text.Classes] (grammar : Grammar Value α) : Grammar Value α :=
  grammar.seqLeft spaces

def token [Text.Classes] (grammar : Grammar Value α) : Grammar Value α :=
  spaces.seqRight (grammar.seqLeft spaces)

def symbol [Text.Classes] (text : String) : Grammar Value String :=
  (literal text.toList).token

def word [Text.Classes] : Grammar Value String :=
  (letter.seq alphanumeric.many).joined

def identifier [Text.Classes] (reserved : List String) : Grammar Value String :=
  (word.guard (fun candidate => !reserved.contains candidate) "non-reserved word").token

def natural [Text.Classes] : Grammar Value Int64 :=
  unsigned.token

def integer [Text.Classes] : Grammar Value Int64 :=
  signed.token

/-- What stands between the quotes of a string literal: a backslash before a quote stands for the
quote, any other character but a quote for itself. -/
def quotedBody : Grammar Value String :=
  (((literal ['\\', '\'']).giving '\'').or (sat (· != '\'') "non quote")).many1.joined.or (pure "")

def quotedText [Text.Classes] : Grammar Value String :=
  (((char '\'').seqRight quotedBody).seqLeft (char '\'')).token

end Deferred.Grammar
