import Deferred.Number.Double

/-! Nested values as the list of their leaves, from left to right. A character is a leaf of its own,
as the text of that character. -/

namespace Deferred

class Leaves (α : Type) (ι : outParam Type) where
  /-- The leaves of a value, from left to right. -/
  leaves : α → List ι

export Leaves (leaves)

instance : Leaves Char String := ⟨fun c => [String.singleton c]⟩
instance : Leaves String String := ⟨fun text => [text]⟩
instance : Leaves Int32 Int32 := ⟨fun value => [value]⟩
instance : Leaves Int64 Int64 := ⟨fun value => [value]⟩
instance : Leaves UInt32 UInt32 := ⟨fun value => [value]⟩
instance : Leaves UInt64 UInt64 := ⟨fun value => [value]⟩
instance : Leaves Double Double := ⟨fun value => [value]⟩

instance {α ι : Type} [Leaves α ι] : Leaves (List α) ι :=
  ⟨fun values => values.flatMap leaves⟩

instance {α ι : Type} [Leaves α ι] : Leaves (Option α) ι :=
  ⟨fun
    | none => []
    | some value => leaves value⟩

instance {α β ι : Type} [Leaves α ι] [Leaves β ι] : Leaves (α × β) ι :=
  ⟨fun pair => leaves pair.1 ++ leaves pair.2⟩

end Deferred
