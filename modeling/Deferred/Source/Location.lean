/-! Where in a text a character stands, for a reader: its line, its offset in the line, and the lines
around it with a pointer under the character. -/

namespace Deferred

/-- A line, counted from one, and a number of characters before the place in that line. -/
structure LinePosition where
  line : Nat
  offset : Nat
deriving DecidableEq, Repr

structure Location where
  source : List Char
  position : Nat

namespace Location

def scan : LinePosition → List Char → LinePosition
  | place, [] => place
  | place, c :: rest =>
    if c = '\n' then scan ⟨place.line + 1, 0⟩ rest else scan ⟨place.line, place.offset + 1⟩ rest

/-- The line and the offset of a location. Past the end of the text the offset goes on growing. -/
def linePosition (location : Location) : LinePosition :=
  let place := scan ⟨1, 0⟩ (location.source.take location.position)
  ⟨place.line, place.offset + (location.position - location.source.length)⟩

/-- The lines of a text without their ends. There is always one, and one more after each line end. -/
def lines : List Char → List (List Char)
  | [] => [[]]
  | c :: rest =>
    if c = '\n' then [] :: lines rest
    else
      match lines rest with
      | line :: others => (c :: line) :: others
      | [] => [[c]]

def margin (marked : Bool) (number : Nat) : List Char :=
  (if marked then "  > " else "    ").toList ++ (toString number).toList ++ " | ".toList

def pointer (number offset : Nat) : List Char :=
  List.replicate ((margin true number).length + offset) ' ' ++ "^--- here".toList

def reportLines (place : LinePosition) : Nat → List (List Char) → List (List Char)
  | _, [] => []
  | number, line :: rest =>
    if number + 2 < place.line ∨ place.line + 2 < number then
      reportLines place (number + 1) rest
    else if number = place.line then
      (margin true number ++ line) :: pointer number place.offset ::
        reportLines place (number + 1) rest
    else (margin false number ++ line) :: reportLines place (number + 1) rest

def excerpt (location : Location) : List (List Char) :=
  reportLines location.linePosition 1 (lines location.source)

end Location

end Deferred
