import Deferred.Text.Shown

/-! Places in a source text. An input knows its position in characters, its offset in bytes and the
text that is left; the three belong together, whatever characters the source holds. -/

namespace Deferred

def utf8Length (text : List Char) : Nat :=
  (String.ofList text).utf8ByteSize

@[simp] theorem utf8Length_nil : utf8Length [] = 0 := rfl

@[simp] theorem utf8Length_append (left right : List Char) :
    utf8Length (left ++ right) = utf8Length left + utf8Length right := by
  rw [utf8Length, String.ofList_append, String.utf8ByteSize_append]
  rfl

@[simp] theorem utf8Length_cons (c : Char) (rest : List Char) :
    utf8Length (c :: rest) = c.utf8Size + utf8Length rest := by
  rw [utf8Length, String.ofList_cons, String.utf8ByteSize_append, String.utf8ByteSize_singleton]
  rfl

def takeBytes? : List Char → Nat → Option (List Char)
  | _, 0 => some []
  | [], _ + 1 => none
  | c :: rest, bytes + 1 =>
    if c.utf8Size ≤ bytes + 1 then (takeBytes? rest (bytes + 1 - c.utf8Size)).map (c :: ·) else none

/-- A text that is read. Its mark tells it from other texts with the same characters. -/
structure Source where
  chars : List Char
  /-- The number of characters. -/
  size : Nat
  mark : Nat
  size_eq : size = chars.length

def Source.ofList (chars : List Char) (mark : Nat) : Source :=
  ⟨chars, chars.length, mark, rfl⟩

/-- A place in a source: `pos` characters or `offset` bytes from its start, before `rest`. -/
structure Input where
  source : Source
  pos : Nat
  offset : Nat
  rest : List Char
  rest_eq : rest = source.chars.drop pos
  pos_le : pos ≤ source.chars.length
  offset_eq : offset = utf8Length (source.chars.take pos)

namespace Input

@[ext] theorem ext_pos {left right : Input} (source : left.source = right.source)
    (pos : left.pos = right.pos) : left = right := by
  obtain ⟨source₁, pos₁, offset₁, rest₁, rfl, _, rfl⟩ := left
  obtain ⟨source₂, pos₂, offset₂, rest₂, rfl, _, rfl⟩ := right
  simp only at source pos
  subst source pos
  rfl

def ofSource (source : Source) : Input where
  source
  pos := 0
  offset := 0
  rest := source.chars
  rest_eq := rfl
  pos_le := Nat.zero_le _
  offset_eq := rfl

def ofList (chars : List Char) (mark : Nat) : Input :=
  ofSource (.ofList chars mark)

def ofString (text : String) : Input :=
  ofList text.toList 0

def head (input : Input) : Option Char :=
  input.rest.head?

theorem drop_succ_of_drop_eq_cons {chars rest : List Char} {pos : Nat} {c : Char}
    (dropped : chars.drop pos = c :: rest) :
    chars.drop (pos + 1) = rest ∧ chars.take (pos + 1) = chars.take pos ++ [c] ∧
      pos + 1 ≤ chars.length := by
  have inside : pos < chars.length := by
    have lengths := congrArg List.length dropped
    simp at lengths
    omega
  rw [List.drop_eq_getElem_cons inside] at dropped
  obtain ⟨rfl, rfl⟩ := List.cons.inj dropped
  exact ⟨rfl, List.take_succ_eq_append_getElem inside, inside⟩

def advance (input : Input) : Option (Char × Input) :=
  match left : input.rest with
  | [] => none
  | c :: rest =>
    have moved := drop_succ_of_drop_eq_cons (input.rest_eq.symm.trans left)
    some (c,
      { source := input.source
        pos := input.pos + 1
        offset := input.offset + c.utf8Size
        rest
        rest_eq := moved.1.symm
        pos_le := moved.2.2
        offset_eq := by rw [moved.2.1, utf8Length_append, ← input.offset_eq, utf8Length_cons]; rfl })

/-- The place behind the next character; the end of a source is the place behind itself. -/
def tail (input : Input) : Input :=
  match input.advance with
  | some (_, rest) => rest
  | none => input

def skip (input : Input) : Nat → Input
  | 0 => input
  | count + 1 => input.tail.skip count

def atEnd (input : Input) : Bool :=
  input.rest.isEmpty

def remaining (input : Input) : Nat :=
  input.source.size - input.pos

def isSame (left right : Input) : Bool :=
  left.source.mark == right.source.mark && left.pos == right.pos

/-- The text between a place and the offset of a later one. The text is empty if the second offset is
before the first or within a character. -/
def textTo (input later : Input) : List Char :=
  if later.offset < input.offset then []
  else (takeBytes? input.rest (later.offset - input.offset)).getD []

def endOfInput : String := "end of input"

def found (input : Input) : String :=
  match input.head with
  | some c => shown c
  | none => endOfInput

instance : Shown Input :=
  ⟨fun input =>
    "Input \x7b pos: " ++ shown input.pos ++ ", head: " ++ shown input.head ++ " \x7d"⟩

theorem rest_length (input : Input) : input.rest.length = input.remaining := by
  rw [remaining, input.source.size_eq, input.rest_eq, List.length_drop]

theorem advance_eq_none_iff {input : Input} : input.advance = none ↔ input.rest = [] := by
  unfold advance
  split
  next left => simp [left]
  next left => simp [left]

theorem advance_eq_some {input next : Input} {c : Char} (moved : input.advance = some (c, next)) :
    input.rest = c :: next.rest ∧ next.source = input.source ∧ next.pos = input.pos + 1 ∧
      next.offset = input.offset + c.utf8Size := by
  unfold advance at moved
  split at moved
  next => simp at moved
  next left =>
    simp only [Option.some.injEq, Prod.mk.injEq] at moved
    obtain ⟨rfl, rfl⟩ := moved
    exact ⟨left, rfl, rfl, rfl⟩

end Input

end Deferred
