import ClamSyntax.Decimal.Rounding
import ClamSyntax.Value

/-! The shortest decimal that reads back as a given double. Among the decimals that
round to the number the one with the fewest digits is taken, and among those the one
nearest to the number. All arithmetic is exact. -/

namespace ClamSyntax.Decimal

/-- The number `digits · 10 ^ exponent`. -/
structure Scaled where
  digits : Nat
  exponent : Int
  deriving DecidableEq, Repr

/-- The same number without the zero that the digits end in when they were rounded up
to a power of ten. -/
def Scaled.trim (number : Scaled) : Scaled :=
  if number.digits % 10 = 0 then ⟨number.digits / 10, number.exponent + 1⟩ else number

/-- The decimal digits of a number, none in front that is not needed. -/
def digitsOf (number : Nat) : List Char := Nat.toDigits 10 number

def width (number : Nat) : Nat := (digitsOf number).length

/-- A positive number and the range of reals that round to it, all over one
denominator. -/
structure Neighbourhood where
  value : Nat
  lower : Nat
  upper : Nat
  denominator : Nat
  /-- whether the ends of the range round to the number -/
  closed : Bool

/-- The reals that round to a finite double. The range reaches half way to either
neighbour; below a power of two the lower neighbour is nearer. The ends round to the
number when its significand is even. -/
def Neighbourhood.ofBinary64 (number : Binary64) : Neighbourhood :=
  let (significand, place) := number.magnitude
  let scale := Nat.pow 2 (place - 1076)
  let nearLower := number.fractionField == 0 && 1 < number.exponentField
  { value := 4 * significand * scale
    lower := (4 * significand - if nearLower then 1 else 2) * scale
    upper := (4 * significand + 2) * scale
    denominator := Nat.pow 2 (1076 - place)
    closed := significand % 2 == 0 }

namespace Neighbourhood

def leading (near : Neighbourhood) : Int :=
  if near.denominator ≤ near.value then width (near.value / near.denominator) - 1
  else - (width ((near.denominator - 1) / near.value) : Int)

/-- The multiple of `10 ^ grid` that rounds to the number, the nearest if there are
several, if there is any. -/
def onGrid? (near : Neighbourhood) (tie : Tie) (grid : Int) : Option Nat :=
  let unit := near.denominator * Nat.pow 10 grid.toNat
  let scale := Nat.pow 10 (-grid).toNat
  let value := near.value * scale
  let lower := near.lower * scale
  let upper := near.upper * scale
  let inside (point : Nat) : Bool :=
    if near.closed then lower ≤ point && point ≤ upper else lower < point && point < upper
  let below := value / unit
  match inside (below * unit), inside ((below + 1) * unit) with
  | true, true => some (roundDiv tie value unit)
  | true, false => some below
  | false, true => some (below + 1)
  | false, false => none

end Neighbourhood

/-- The shortest decimal that rounds to a finite positive double. Seventeen digits are
always enough. -/
def shortest (tie : Tie) (number : Binary64) : Scaled :=
  let near := Neighbourhood.ofBinary64 number
  let found := (List.range 17).findSome? fun (more : Nat) =>
    let grid := near.leading - (more : Int)
    (near.onGrid? tie grid).map fun digits => (⟨digits, grid⟩ : Scaled).trim
  found.getD ⟨0, 0⟩

end ClamSyntax.Decimal
