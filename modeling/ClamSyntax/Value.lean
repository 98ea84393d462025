/-! Constants: what a literal denotes and what a constant pool holds. Numbers of double precision
are told apart by their bits, so a not-a-number equals itself and the two zeros differ; `equal` and
`Value.same` compare them as numbers. -/

namespace ClamSyntax

structure Binary64 where
  bits : UInt64
  deriving DecidableEq, Repr, Hashable

namespace Binary64

/-- The bits of the not-a-number that an invalid operation delivers: quiet, with the
sign bit set. -/
def invalidResult : Binary64 := ⟨0xfff8000000000000⟩

def notANumber : Binary64 := ⟨0x7ff8000000000000⟩

/-- The bits of the result of a calculation. -/
def ofFloat (result : Float) : Binary64 :=
  if result.isNaN then invalidResult else ⟨result.toBits⟩

def isNegative (number : Binary64) : Bool := number.bits >>> 63 == 1

def exponentField (number : Binary64) : Nat := ((number.bits >>> 52) &&& 0x7ff).toNat

def fractionField (number : Binary64) : Nat := (number.bits &&& 0xfffffffffffff).toNat

def isNaN (number : Binary64) : Bool :=
  number.exponentField == 0x7ff && number.fractionField != 0

def isInfinite (number : Binary64) : Bool :=
  number.exponentField == 0x7ff && number.fractionField == 0

/-- For a finite number its magnitude as `m · 2 ^ (e - 1074)`. -/
def magnitude (number : Binary64) : Nat × Nat :=
  if number.exponentField = 0 then (number.fractionField, 0)
  else (Nat.pow 2 52 + number.fractionField, number.exponentField - 1)

def isZero (number : Binary64) : Bool :=
  number.exponentField == 0 && number.fractionField == 0

/-- Numeric equality: the zeros are equal and a not-a-number equals nothing. -/
def equal (first second : Binary64) : Bool :=
  !first.isNaN && !second.isNaN && (first == second || (first.isZero && second.isZero))

end Binary64

inductive Value where
  | unit
  | bool (truth : Bool)
  | int (number : Int32)
  | float (number : Binary64)
  | str (text : String)
  deriving DecidableEq, Hashable, Repr

/-- Equality with floats compared as numbers. -/
def Value.same : Value → Value → Bool
  | float first, float second => first.equal second
  | first, second => first == second

end ClamSyntax
