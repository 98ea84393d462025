import ClamSyntax.Arena
import ClamSyntax.Decimal.Layout
import ClamSyntax.Outline
import ClamSyntax.Text.Printable
import ClamSyntax.Text.Quoted

namespace ClamSyntax

/-- In outlines floats are written in the fewest digits, positionally from 10⁻⁴ to below
10¹⁶. -/
def Outline.floatLayout : Decimal.Layout := ⟨-4, 16, .up, false⟩

def Outline.escapeLetter? : Char → Option Char
  | '\t' => some 't'
  | '\r' => some 'r'
  | '\n' => some 'n'
  | '"' => some '"'
  | '\\' => some '\\'
  | '\x00' => some '0'
  | _ => none

/-- In outlines and listings printable characters of any script stand as they are. -/
def Outline.quoting : Text.Quoting where
  letter? := Outline.escapeLetter?
  plain := Text.isPrintable
  coded := Text.bracedCode

namespace Outline

def natural (number : Nat) : Outline := .word (toString number).toList

def quoted (text : String) : Outline := .word (quoting.quote text.toList)

def position (index : Nat) : Outline := .tuple "AstIndex" [natural index]

def ofSpan (span : Span) : Outline :=
  .record "Span" [("start", natural span.start), ("end", natural span.stop)]

def ofValue : Value → Outline
  | .unit => .word "Unit".toList
  | .bool truth => .tuple "Bool" [.word (toString truth).toList]
  | .int number => .tuple "Int" [.word (toString number.toInt).toList]
  | .float number => .tuple "Float" [.word (Decimal.finiteOr floatLayout.write number)]
  | .str text => .tuple "Str" [quoted text]

def ofBinding (binding : LetBinding) : Outline :=
  .record "LetBind"
    [("span", ofSpan binding.span), ("name", quoted binding.name),
      ("value", position binding.value)]

def ofForm : Form → Outline
  | .literal value => .tuple "Literal" [ofValue value]
  | .name text => .tuple "Ident" [quoted text]
  | .list items => .tuple "List" [.list (items.map position)]
  | .letIn bindings body =>
    .record "LetIn" [("bindings", .list (bindings.map ofBinding)), ("body", position body)]
  | .function param body =>
    .record "Abstraction" [("param", quoted param), ("body", position body)]
  | .application function argument =>
    .record "Application" [("function", position function), ("argument", position argument)]
  | .print operand => .tuple "Print" [position operand]
  | .conditional condition yes no =>
    .record "IfElse"
      [("condition", position condition), ("then", position yes), ("else_", position no)]
  | .unary op place operand =>
    .record "UnaryOp"
      [("op", .word op.name.toList), ("op_span", ofSpan place), ("operand", position operand)]
  | .binary op place left right =>
    .record "BinaryOp"
      [("op", .word op.name.toList), ("op_span", ofSpan place), ("lhs", position left),
        ("rhs", position right)]
  | .subscript target index =>
    .record "ListIndex" [("list", position target), ("index", position index)]

def ofNode (node : Node) : Outline :=
  .record "Node" [("kind", ofForm node.form), ("span", ofSpan node.span)]

def ofArena (arena : Arena) (root : Nat) : Outline :=
  .record "Dump"
    [("root", position root),
      ("ast", .record "Ast" [("nodes", .list (arena.nodes.toList.map ofNode))])]

end Outline

end ClamSyntax
