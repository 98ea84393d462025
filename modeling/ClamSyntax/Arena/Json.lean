import ClamSyntax.Arena
import ClamSyntax.Json

namespace ClamSyntax.Json

def ofSpan (span : Span) : Json :=
  .object [("start", natural span.start), ("end", natural span.stop)]

def ofBinding (binding : LetBinding) : Json :=
  .object
    [("span", ofSpan binding.span), ("name", .string binding.name),
      ("value", natural binding.value)]

def ofForm : Form → Json
  | .literal value => variant "Literal" (ofValue value)
  | .name text => variant "Ident" (.string text)
  | .list items => variant "List" (.array (items.map natural))
  | .letIn bindings body =>
    variant "LetIn"
      (.object [("bindings", .array (bindings.map ofBinding)), ("body", natural body)])
  | .function param body =>
    variant "Abstraction" (.object [("param", .string param), ("body", natural body)])
  | .application function argument =>
    variant "Application"
      (.object [("function", natural function), ("argument", natural argument)])
  | .print operand => variant "Print" (natural operand)
  | .conditional condition yes no =>
    variant "IfElse"
      (.object
        [("condition", natural condition), ("then", natural yes), ("else_", natural no)])
  | .unary op place operand =>
    variant "UnaryOp"
      (.object
        [("op", .string op.name), ("op_span", ofSpan place), ("operand", natural operand)])
  | .binary op place left right =>
    variant "BinaryOp"
      (.object
        [("op", .string op.name), ("op_span", ofSpan place), ("lhs", natural left),
          ("rhs", natural right)])
  | .subscript target index =>
    variant "ListIndex" (.object [("list", natural target), ("index", natural index)])

def ofNode (node : Node) : Json :=
  .object [("kind", ofForm node.form), ("span", ofSpan node.span)]

def ofArena (arena : Arena) (root : Nat) : Json :=
  .object [("root", natural root), ("nodes", .array (arena.nodes.toList.map ofNode))]

end ClamSyntax.Json
