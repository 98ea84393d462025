import ClamSyntax.Decimal.Layout
import ClamSyntax.Operator
import ClamSyntax.Text.Quoted
import ClamSyntax.Value

namespace ClamSyntax

inductive Expr where
  | literal (value : Value)
  | name (text : String)
  | list (items : List Expr)
  | letIn (bindings : List (String × Expr)) (body : Expr)
  | function (param : String) (body : Expr)
  | application (function argument : Expr)
  | print (operand : Expr)
  | conditional (condition yes no : Expr)
  | unary (op : UnaryOp) (operand : Expr)
  | binary (op : BinaryOp) (left right : Expr)
  | subscript (target index : Expr)

/-- The letters of escapes in a printed string, where single quotes are escaped too. -/
def Expr.escapeLetter? : Char → Option Char
  | '\t' => some 't'
  | '\r' => some 'r'
  | '\n' => some 'n'
  | '\'' => some '\''
  | '"' => some '"'
  | '\\' => some '\\'
  | _ => none

/-- A printed string is ASCII: all but the characters from the space to the tilde
are written as code points. -/
def Expr.quoting : Text.Quoting where
  letter? := Expr.escapeLetter?
  plain c := 0x20 ≤ c.toNat && c.toNat ≤ 0x7e
  coded := Text.bracedCode

/-- A float is printed with six places. -/
def Value.sexpr : Value → List Char
  | unit => "unit".toList
  | bool true => "true".toList
  | bool false => "false".toList
  | int number => (toString number.toInt).toList
  | float number => Decimal.finiteOr (Decimal.fixed 6) number
  | str text => Expr.quoting.quote text.toList

mutual

/-- Writes the expression in front of a text. -/
def Expr.write (after : List Char) : Expr → List Char
  | .literal value => value.sexpr ++ after
  | .name text => text.toList ++ after
  | .list items => "(list".toList ++ Expr.writeItems (')' :: after) items
  | .letIn bindings body =>
    "(let [".toList ++ Expr.writeBindings ("] ".toList ++ body.write (')' :: after)) bindings
  | .function param body =>
    "(fun [".toList ++ (param.toList ++ ("] ".toList ++ body.write (')' :: after)))
  | .application callee argument =>
    "(app ".toList ++ callee.write (' ' :: argument.write (')' :: after))
  | .print operand => "(print ".toList ++ operand.write (')' :: after)
  | .conditional condition yes no =>
    "(if ".toList ++ condition.write (" :then ".toList ++
      yes.write (" :else ".toList ++ no.write (')' :: after)))
  | .unary op operand => '(' :: (op.spelling.toList ++ ' ' :: operand.write (')' :: after))
  | .binary op left right =>
    '(' :: (op.spelling.toList ++ ' ' :: left.write (' ' :: right.write (')' :: after)))
  | .subscript target index => "(get ".toList ++ target.write (' ' :: index.write (')' :: after))

def Expr.writeItems (after : List Char) : List Expr → List Char
  | [] => after
  | item :: rest => ' ' :: item.write (Expr.writeItems after rest)

def Expr.writeBindings (after : List Char) : List (String × Expr) → List Char
  | [] => after
  | [(bound, value)] => '(' :: (bound.toList ++ ' ' :: value.write (')' :: after))
  | (bound, value) :: rest =>
    '(' :: (bound.toList ++ ' ' :: value.write (')' :: ' ' :: Expr.writeBindings after rest))

end

def Expr.sexpr (expr : Expr) : List Char := expr.write []

end ClamSyntax
