namespace ClamSyntax.Text

/-- Which characters have a one-letter escape, which stand as they are, and how all others are
written. -/
structure Quoting where
  /-- the letter of a character's escape -/
  letter? : Char → Option Char
  plain : Char → Bool
  /-- what is written for a character that is neither escaped by a letter nor plain -/
  coded : Char → List Char

namespace Quoting

def char (quoting : Quoting) (c : Char) : List Char :=
  match quoting.letter? c with
  | some letter => ['\\', letter]
  | none => if quoting.plain c then [c] else quoting.coded c

def quote (quoting : Quoting) (text : List Char) : List Char :=
  '"' :: (text.flatMap quoting.char ++ ['"'])

end Quoting

def hexDigits (c : Char) : List Char := Nat.toDigits 16 c.toNat

/-- A code point between braces: `\u{301}`. -/
def bracedCode (c : Char) : List Char := '\\' :: 'u' :: '{' :: (hexDigits c ++ ['}'])

/-- A code point in four digits at least: `\u0001`. -/
def paddedCode (c : Char) : List Char :=
  let digits := hexDigits c
  '\\' :: 'u' :: (List.replicate (4 - digits.length) '0' ++ digits)

end ClamSyntax.Text
