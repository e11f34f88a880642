import Deferred.Source.Input

/-! The list of nodes behind the places of a source. A source is taken apart once, into its characters and the offsets
of their bytes, and the nodes are made from its end to its start, so that each holds on to the one behind it. Nodes are
told apart by the cells that they are kept in, and the text that is left is cut from the bytes of the source. -/

namespace Deferred

/-- The text between two offsets in the bytes of a source, if both lie between characters. -/
def slice? (source : String) (start stop : Nat) : Option String :=
  if start ≤ stop ∧ String.Pos.Raw.isValid source ⟨start⟩ ∧ String.Pos.Raw.isValid source ⟨stop⟩ then
    some (String.Pos.Raw.extract source ⟨start⟩ ⟨stop⟩)
  else none

/-- A character of a source, or its end. -/
structure Node where
  /-- Where the node is kept; no other node is kept there. -/
  cell : Nat
  head : Option Char
  /-- The node behind this one, unless it is the last. -/
  tail : Option Node
  pos : Nat
  offset : Nat
  source : String

namespace Node

def charIndices : Nat → List Char → List (Nat × Char)
  | _, [] => []
  | offset, c :: rest => (offset, c) :: charIndices (offset + c.utf8Size) rest

def link (source : String) (place : (Nat × Char) × Nat) (behind : Node × Nat) : Node × Nat :=
  ({ cell := behind.2, head := some place.1.2, tail := some behind.1, pos := place.2, offset := place.1.1, source },
    behind.2 + 1)

/-- Makes the nodes of a source in the cells from `free` on. The first of them comes with the next free cell. -/
def ofString (source : String) (free : Nat) : Node × Nat :=
  let chars := charIndices 0 source.toList
  chars.zipIdx.foldr (link source)
    ({ cell := free, head := none, tail := none, pos := chars.length, offset := source.utf8ByteSize, source }, free + 1)

def next (node : Node) : Node :=
  node.tail.getD node

def advance (node : Node) : Option (Char × Node) :=
  node.head.map fun c => (c, node.next)

def skip (node : Node) : Nat → Node
  | 0 => node
  | count + 1 => node.next.skip count

def atEnd (node : Node) : Bool :=
  node.head.isNone

def rest (node : Node) : String :=
  (slice? node.source node.offset node.source.utf8ByteSize).getD ""

def textTo (node later : Node) : String :=
  (slice? node.source node.offset later.offset).getD ""

def isSame (left right : Node) : Bool :=
  left.cell == right.cell

end Node

end Deferred
