import Deferred.Text.Quoted

/-! The text of a value as it stands in error messages, events and logs. Values of different kinds
have different texts: a character is in single quotes, a string in double quotes, a list in brackets
and a tuple in parentheses. -/

universe u v

namespace Deferred

class Shown (α : Type u) where
  /-- The text of the value. -/
  shown : α → String

export Shown (shown)

namespace Text

def commaSeparated (texts : List String) : String :=
  ", ".intercalate texts

end Text

instance : Shown Unit := ⟨fun _ => "()"⟩
instance : Shown Bool := ⟨fun value => if value then "true" else "false"⟩
instance : Shown Nat := ⟨toString⟩
instance : Shown Int64 := ⟨fun value => toString value.toInt⟩
instance : Shown Char := ⟨Text.quotedChar⟩
instance : Shown String := ⟨Text.quotedString⟩

instance {α : Type u} [Shown α] : Shown (List α) :=
  ⟨fun values => "[" ++ Text.commaSeparated (values.map shown) ++ "]"⟩

instance {α : Type u} {β : Type v} [Shown α] [Shown β] : Shown (α × β) :=
  ⟨fun pair => "(" ++ shown pair.1 ++ ", " ++ shown pair.2 ++ ")"⟩

instance {α : Type u} [Shown α] : Shown (Option α) :=
  ⟨fun
    | none => "None"
    | some value => "Some(" ++ shown value ++ ")"⟩

instance {ε : Type u} {α : Type v} [Shown ε] [Shown α] : Shown (Except ε α) :=
  ⟨fun
    | .ok value => "Ok(" ++ shown value ++ ")"
    | .error error => "Err(" ++ shown error ++ ")"⟩

end Deferred
