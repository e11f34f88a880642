/-! Decimal digits. Only those of ASCII denote values. -/

namespace Deferred.Text

def digitValue? (c : Char) : Option Nat :=
  if c.isDigit then some (c.toNat - '0'.toNat) else none

end Deferred.Text
