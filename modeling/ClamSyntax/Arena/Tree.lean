import ClamSyntax.Arena.Json
import ClamSyntax.Arena.Outline
import ClamSyntax.Expr

namespace ClamSyntax

namespace Arena

/-- Why no expression hangs below a node. -/
inductive Broken where
  /-- a child names a position past the end of the store -/
  | missing (size index : Nat)
  /-- a node lies below itself -/
  | cyclic
  deriving DecidableEq, Repr

def Broken.message : Broken → String
  | missing size index =>
    "index out of bounds: the len is " ++ toString size ++ " but the index is " ++ toString index
  | cyclic => "a node is its own descendant"

/-- Reads the expression below a node of at most the given height. Of several missing
positions the first one met from left to right is reported. -/
def exprBelow (arena : Arena) (height index : Nat) : Except Broken Expr :=
  match arena.get? index with
  | none => .error (.missing arena.size index)
  | some node =>
    match height with
    | 0 => .error .cyclic
    | height + 1 => do
      let child := exprBelow arena height
      match node.form with
      | .literal value => return .literal value
      | .name text => return .name text
      | .list items => return .list (← items.mapM child)
      | .letIn bindings body =>
        let bound ← bindings.mapM fun binding => do return (binding.name, ← child binding.value)
        return .letIn bound (← child body)
      | .function param body => return .function param (← child body)
      | .application function argument =>
        return .application (← child function) (← child argument)
      | .print operand => return .print (← child operand)
      | .conditional condition yes no =>
        return .conditional (← child condition) (← child yes) (← child no)
      | .unary op _ operand => return .unary op (← child operand)
      | .binary op _ left right => return .binary op (← child left) (← child right)
      | .subscript target index => return .subscript (← child target) (← child index)

/-- The expression below a node. A path that meets no node twice has at most as many
nodes as the store. -/
def expr? (arena : Arena) (index : Nat) : Except Broken Expr :=
  exprBelow arena arena.size index

end Arena

inductive Format where
  | sexpr | pretty | json
  deriving DecidableEq, Repr

/-- The tree below a node on one line; fails where the tree is broken. -/
def Arena.sexpr (arena : Arena) (root : Nat) : Except Arena.Broken String :=
  (arena.expr? root).map fun expr => String.ofList expr.sexpr

/-- A store and a root in the given format. Outline and JSON list every node and do not
look for the root. -/
def Arena.format (arena : Arena) (root : Nat) : Format → Except Arena.Broken String
  | .sexpr => arena.sexpr root
  | .pretty => .ok (Outline.ofArena arena root).text
  | .json => .ok (Json.ofArena arena root).indented

end ClamSyntax
