import Deferred.Text.Printable

/-! Quoted characters and strings, as they appear in error messages and events. A character that would
end the quotation, a backslash and the four short controls get a backslash; other characters that do
not print get their code point in braces. -/

namespace Deferred.Text

def escaped (quote c : Char) : List Char :=
  if c = '\x00' then ['\\', '0']
  else if c = '\t' then ['\\', 't']
  else if c = '\r' then ['\\', 'r']
  else if c = '\n' then ['\\', 'n']
  else if c = '\\' then ['\\', '\\']
  else if c = quote then ['\\', quote]
  else if isPrintable c then [c]
  else ['\\', 'u', '\x7b'] ++ Nat.toDigits 16 c.toNat ++ ['\x7d']

def quoted (quote : Char) (text : List Char) : List Char :=
  quote :: text.flatMap (escaped quote) ++ [quote]

def quotedChar (c : Char) : String :=
  String.ofList (quoted '\'' [c])

def quotedString (text : String) : String :=
  String.ofList (quoted '"' text.toList)

end Deferred.Text
