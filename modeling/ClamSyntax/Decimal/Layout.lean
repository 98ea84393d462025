import ClamSyntax.Decimal.Shortest

/-! Written forms of doubles: a fixed number of places, or the fewest digits that read
back. What such forms leave open is a record of decisions, made where numbers are
written. -/

namespace ClamSyntax.Decimal

/-- The decisions of a format that writes the fewest digits. -/
structure Layout where
  /-- the least exponent of the leading digit that is written positionally -/
  least : Int
  /-- the least exponent of the leading digit above those -/
  limit : Int
  /-- which of two equally near decimals is written -/
  tie : Tie
  /-- whether an exponent that is not negative has a sign -/
  plus : Bool

def signed (number : Binary64) (text : List Char) : List Char :=
  if number.isNegative then '-' :: text else text

/-- The digits with a point, zeros filled in, and at least one digit on either side. -/
def positional (number : Scaled) : List Char :=
  let digits := digitsOf number.digits
  let places := (-number.exponent).toNat
  if 0 ≤ number.exponent then
    digits ++ List.replicate number.exponent.toNat '0' ++ ['.', '0']
  else if places < digits.length then
    digits.take (digits.length - places) ++ '.' :: digits.drop (digits.length - places)
  else '0' :: '.' :: (List.replicate (places - digits.length) '0' ++ digits)

/-- The leading digit, a point and the others if there are any, and the exponent. -/
def scientific (plus : Bool) (number : Scaled) : List Char :=
  let digits := digitsOf number.digits
  let exponent := number.exponent + (digits.length - 1 : Nat)
  let sign := if exponent < 0 then ['-'] else if plus then ['+'] else []
  let fraction := if digits.length = 1 then [] else '.' :: digits.drop 1
  digits.take 1 ++ fraction ++ 'e' :: (sign ++ digitsOf exponent.natAbs)

/-- A finite double in the fewest digits that read back. -/
def Layout.write (layout : Layout) (number : Binary64) : List Char :=
  if number.isZero then signed number ['0', '.', '0']
  else
    let decimal := shortest layout.tie number
    let leading := decimal.exponent + (width decimal.digits - 1 : Nat)
    signed number
      (if layout.least ≤ leading ∧ leading < layout.limit then positional decimal
      else scientific layout.plus decimal)

/-- A finite double rounded to a number of decimal places, a tie to the even
neighbour. -/
def fixed (places : Nat) (number : Binary64) : List Char :=
  let (significand, place) := number.magnitude
  let unit := Nat.pow 10 places
  let scaled :=
    roundDiv .toEven (significand * Nat.pow 2 (place - 1074) * unit) (Nat.pow 2 (1074 - place))
  let fraction := digitsOf (scaled % unit)
  signed number
    (digitsOf (scaled / unit) ++
      '.' :: (List.replicate (places - fraction.length) '0' ++ fraction))

/-- A double in the given form, or in words if it is not finite. -/
def finiteOr (write : Binary64 → List Char) (number : Binary64) : List Char :=
  if number.isNaN then ['N', 'a', 'N']
  else if number.isInfinite then signed number ['i', 'n', 'f']
  else write number

end ClamSyntax.Decimal
