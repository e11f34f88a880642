/-! Binary floating-point numbers of 64 bits. They are kept as their bits: `Float` would forget the sign
and the payload of a NaN, and a sum hands on those of its operands. -/

namespace Deferred

structure Double where
  bits : UInt64
deriving DecidableEq, Repr

namespace Double

/-- The bits of positive infinity. Above them, but for the sign, stand those of the NaNs. -/
def infinity : UInt64 := 0x7ff0000000000000

def isNaN (x : Double) : Bool :=
  infinity < x.bits &&& 0x7fffffffffffffff

def quiet (x : Double) : Double :=
  ⟨x.bits ||| 0x0008000000000000⟩

def invalid : Double := ⟨0xfff8000000000000⟩

def add (x y : Double) : Double :=
  if x.isNaN then x.quiet
  else if y.isNaN then y.quiet
  else
    let sum : Double := ⟨(Float.ofBits x.bits + Float.ofBits y.bits).toBits⟩
    if sum.isNaN then invalid else sum

end Double

end Deferred
