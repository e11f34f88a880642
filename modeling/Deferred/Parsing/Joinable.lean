import Deferred.Number.Double

/-! Values that can be joined: texts and lists end to end, integers by addition modulo the size of the
word, floating-point numbers by rounded addition. -/

namespace Deferred

class Joinable (α : Type) where
  /-- One value and then another as one value. -/
  join : α → α → α

instance : Joinable String := ⟨(· ++ ·)⟩
instance {α : Type} : Joinable (List α) := ⟨(· ++ ·)⟩
instance : Joinable Int32 := ⟨(· + ·)⟩
instance : Joinable Int64 := ⟨(· + ·)⟩
instance : Joinable UInt32 := ⟨(· + ·)⟩
instance : Joinable UInt64 := ⟨(· + ·)⟩
instance : Joinable Double := ⟨Double.add⟩

end Deferred
