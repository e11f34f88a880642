import Deferred.Source.Location
import Deferred.Text.Shown
import Deferred.Text.Json

/-! Why a text could not be read. An error is a tree: a choice that fails has an error for each of its
alternatives. What is reported is the leftmost of the leaves that are furthest into the text. -/

namespace Deferred

/-- Why reading failed. Positions count characters. -/
inductive ParseError where
  /-- Something was expected and something else was found. -/
  | mismatch (expected found : String) (pos : Nat)
  /-- Both alternatives of a choice failed. -/
  | alternatives (first second : ParseError)
  /-- A rule was used that has no body. -/
  | undefined (pos : Nat)
deriving DecidableEq, Repr

namespace ParseError

def message : ParseError → String
  | .mismatch expected found pos =>
    s!"expected {expected}, found {found} at position {pos}"
  | .alternatives first second => first.message ++ "; " ++ second.message
  | .undefined pos => s!"grammar rule used before it was defined, at position {pos}"

def leaves : ParseError → List ParseError
  | .alternatives first second => first.leaves ++ second.leaves
  | leaf => [leaf]

def position : ParseError → Nat
  | .mismatch _ _ pos => pos
  | .alternatives first second => max first.position second.position
  | .undefined pos => pos

def furthest (likely : ParseError) : List ParseError → ParseError
  | [] => likely
  | leaf :: rest => if likely.position < leaf.position then furthest leaf rest else furthest likely rest

def mostLikely (error : ParseError) : ParseError :=
  match error.leaves with
  | [] => error
  | leaf :: rest => furthest leaf rest

def render (error : ParseError) (source : List Char) : String :=
  let likely := error.mostLikely
  let location : Location := ⟨source, likely.position⟩
  let place := location.linePosition
  "Syntax error at line " ++ toString place.line ++ ", offset " ++ toString place.offset ++ ": " ++
    likely.message ++ "\n\n" ++
    String.join (location.excerpt.map fun line => String.ofList line ++ "\n")

def toJson : ParseError → Json
  | .mismatch expected found pos =>
    .object [("expected", .text expected), ("found", .text found), ("pos", .number pos)]
  | .alternatives first second => .array [first.toJson, second.toJson]
  | .undefined pos => .object [("pos", .number pos)]

def shownText : ParseError → String
  | .mismatch expected found pos =>
    "Mismatch \x7b expected: " ++ shown expected ++ ", found: " ++ shown found ++ ", pos: " ++
      shown pos ++ " \x7d"
  | .alternatives first second =>
    "Alternatives(" ++ first.shownText ++ ", " ++ second.shownText ++ ")"
  | .undefined pos => "Undefined \x7b pos: " ++ shown pos ++ " \x7d"

instance : Shown ParseError := ⟨shownText⟩

end ParseError

inductive RuleError where
  /-- The rule has a body. -/
  | defined
deriving DecidableEq, Repr

def RuleError.message : RuleError → String
  | .defined => "forward reference is already defined"

end Deferred
