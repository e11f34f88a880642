import Deferred.Text.Shown
import Deferred.Text.Json

/-! Arithmetic expressions as trees, their documents, and their values in words of 64 bits. -/

namespace Deferred.Arithmetic

inductive Operator where
  | add
  | sub
  | mul
  | pow
deriving DecidableEq, Repr

inductive Expr where
  | int (value : Int64)
  | var (name : String)
  | node (operator : Operator) (left right : Expr)
deriving DecidableEq

def Operator.name : Operator → String
  | .add => "add"
  | .sub => "sub"
  | .mul => "mul"
  | .pow => "pow"

def Operator.title : Operator → String
  | .add => "Add"
  | .sub => "Sub"
  | .mul => "Mul"
  | .pow => "Pow"

namespace Expr

def toJson : Expr → Json
  | .int value => .number value.toInt
  | .var name => .object [("node", .text "var"), ("child", .text name)]
  | .node operator left right =>
    .object [("node", .text operator.name), ("left", left.toJson), ("right", right.toJson)]

def shownText : Expr → String
  | .int value => "Int(" ++ shown value ++ ")"
  | .var name => "Node(Var \x7b child: " ++ shown name ++ " \x7d)"
  | .node operator left right =>
    "Node(" ++ operator.title ++ " \x7b left: " ++ left.shownText ++ ", right: " ++
      right.shownText ++ " \x7d)"

instance : Shown Expr := ⟨shownText⟩

/-- The value of an expression of integers, sums, differences and products, with arithmetic modulo
2 ^ 64. Other expressions have none. -/
def value? : Expr → Option Int64
  | .int value => some value
  | .var _ => none
  | .node .add left right => do return (← left.value?) + (← right.value?)
  | .node .sub left right => do return (← left.value?) - (← right.value?)
  | .node .mul left right => do return (← left.value?) * (← right.value?)
  | .node .pow _ _ => none

end Expr

end Deferred.Arithmetic
