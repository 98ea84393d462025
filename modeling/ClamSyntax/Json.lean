import ClamSyntax.Decimal.Layout
import ClamSyntax.Text.Quoted
import ClamSyntax.Value

namespace ClamSyntax

inductive Json where
  | integer (number : Int)
  | float (number : Binary64)
  | bool (truth : Bool)
  | string (text : String)
  | array (items : List Json)
  /-- members in the order in which they are written -/
  | object (members : List (String × Json))

namespace Json

/-- Floats are written in the fewest digits, positionally from 10⁻⁵ to below 10¹⁶, with
a sign in every exponent. -/
def floatLayout : Decimal.Layout := ⟨-5, 16, .toEven, true⟩

def escapeLetter? : Char → Option Char
  | '"' => some '"'
  | '\\' => some '\\'
  | '\x08' => some 'b'
  | '\x0c' => some 'f'
  | '\n' => some 'n'
  | '\r' => some 'r'
  | '\t' => some 't'
  | _ => none

/-- All characters but the controls of ASCII stand as they are. -/
def quoting : Text.Quoting where
  letter? := escapeLetter?
  plain c := 0x20 ≤ c.toNat
  coded := Text.paddedCode

/-- The text of a float; JSON has no word but null for what is not finite. -/
def writeFloat (number : Binary64) : List Char :=
  if number.isNaN || number.isInfinite then "null".toList else floatLayout.write number

/-- How the parts of arrays and objects are set apart. -/
structure Style where
  /-- what stands before a part at the given depth -/
  lead : Nat → List Char
  /-- what stands between a member's name and its value -/
  colon : List Char

def Style.compact : Style := ⟨fun _ => [], [':']⟩

def Style.indented : Style :=
  ⟨fun depth => '\n' :: List.replicate (2 * depth) ' ', [':', ' ']⟩

mutual

def write (style : Style) (depth : Nat) : Json → List Char
  | integer number => (toString number).toList
  | float number => writeFloat number
  | bool true => "true".toList
  | bool false => "false".toList
  | string text => quoting.quote text.toList
  | array [] => ['[', ']']
  | array (first :: rest) =>
    '[' :: (style.lead (depth + 1) ++ (first.write style (depth + 1) ++
      (writeItems style depth rest ++ [']'])))
  | object [] => ['{', '}']
  | object ((name, first) :: rest) =>
    '{' :: (style.lead (depth + 1) ++ (quoting.quote name.toList ++ (style.colon ++
      (first.write style (depth + 1) ++ (writeMembers style depth rest ++ ['}'])))))

/-- The items behind the first one, and what leads to the closing bracket. -/
def writeItems (style : Style) (depth : Nat) : List Json → List Char
  | [] => style.lead depth
  | item :: rest =>
    ',' :: (style.lead (depth + 1) ++
      (item.write style (depth + 1) ++ writeItems style depth rest))

/-- The members behind the first one, and what leads to the closing brace. -/
def writeMembers (style : Style) (depth : Nat) : List (String × Json) → List Char
  | [] => style.lead depth
  | (name, value) :: rest =>
    ',' :: (style.lead (depth + 1) ++ (quoting.quote name.toList ++ (style.colon ++
      (value.write style (depth + 1) ++ writeMembers style depth rest))))

end

def compact (json : Json) : String := String.ofList (json.write .compact 0)

def indented (json : Json) : String := String.ofList (json.write .indented 0)

def natural (number : Nat) : Json := .integer number

/-- A form with one payload, as an object with the form's name for its only key. -/
def variant (name : String) (payload : Json) : Json := .object [(name, payload)]

def ofValue : Value → Json
  | .unit => .string "Unit"
  | .bool truth => variant "Bool" (.bool truth)
  | .int number => variant "Int" (.integer number.toInt)
  | .float number => variant "Float" (.float number)
  | .str text => variant "Str" (.string text)

end Json

end ClamSyntax
