import ClamSyntax.Token
import ClamSyntax.Value

/-! The values of literal tokens. Integers wrap to 32 bits, floats are calculated
digit by digit in double precision, strings have their escapes resolved. -/

namespace ClamSyntax.Literal

def digitValue (digit : Char) : Nat := digit.toNat - '0'.toNat

/-- The decimal value of the digits, reduced to 32 bits in two's complement. -/
def integer (digits : List Char) : Int32 :=
  digits.foldl (fun value digit => value * 10 + Int32.ofNat (digitValue digit)) 0

/-- The value of the digits, rounded to double precision after every step. -/
def accumulate (digits : List Char) : Float :=
  digits.foldl (fun value digit => value * 10 + Float.ofNat (digitValue digit)) 0

/-- Multiplies `result` by `base ^ exponent`, squaring the base for every binary digit
of the exponent. -/
def timesPower (result base : Float) (exponent : Nat) : Float :=
  let result := if exponent % 2 = 1 then result * base else result
  if exponent / 2 = 0 then result else timesPower result (base * base) (exponent / 2)
termination_by exponent
decreasing_by omega

/-- The whole part plus the fraction digits over a power of ten. -/
def decimal (whole fraction : List Char) : Binary64 :=
  .ofFloat (accumulate whole + accumulate fraction / timesPower 1 10 fraction.length)

/-- A backslash that no escape begins with: its byte offset behind the opening quote,
and the character after it. -/
structure BadEscape where
  offset : Nat
  escape : Char
  deriving DecidableEq, Repr

def escaped? : Char → Option Char
  | 'n' => some '\n'
  | 'r' => some '\r'
  | 't' => some '\t'
  | '0' => some '\x00'
  | '"' => some '"'
  | '\\' => some '\\'
  | _ => none

/-- Resolves the escapes of a text that starts at the given offset; `before` is the
result so far, reversed. A backslash at the very end stands for nothing. -/
def unescapeFrom (before : List Char) (offset : Nat) :
    List Char → Except BadEscape (List Char)
  | [] => .ok before.reverse
  | ['\\'] => .ok before.reverse
  | '\\' :: escape :: rest =>
    match escaped? escape with
    | some c => unescapeFrom (c :: before) (offset + 1 + escape.utf8Size) rest
    | none => .error ⟨offset, escape⟩
  | c :: rest => unescapeFrom (c :: before) (offset + c.utf8Size) rest

/-- The text that a string body denotes, or its first bad escape. -/
def unescape (body : List Char) : Except BadEscape (List Char) := unescapeFrom [] 0 body

/-- The value that a lexeme denotes; none if the lexeme is not a literal. -/
def value? : Lexeme → Option (Except BadEscape Value)
  | .symbol .kwUnit => some (.ok .unit)
  | .symbol .kwTrue => some (.ok (.bool true))
  | .symbol .kwFalse => some (.ok (.bool false))
  | .integer digits => some (.ok (.int (integer digits)))
  | .decimal whole fraction => some (.ok (.float (decimal whole fraction)))
  | .quoted body => some ((unescape body).map fun text => .str (String.ofList text))
  | _ => none

end ClamSyntax.Literal
