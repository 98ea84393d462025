import ClamSyntax.Operator
import ClamSyntax.Span
import ClamSyntax.Value

namespace ClamSyntax

/-- One binding of a `let`: the range of the name, the name, and the node of the value. -/
structure LetBinding where
  span : Span
  name : String
  value : Nat
  deriving DecidableEq, Repr

/-- What a node is. Children are positions in the store. -/
inductive Form where
  | literal (value : Value)
  | name (text : String)
  | list (items : List Nat)
  | letIn (bindings : List LetBinding) (body : Nat)
  | function (param : String) (body : Nat)
  | application (function argument : Nat)
  | print (operand : Nat)
  | conditional (condition yes no : Nat)
  | unary (op : UnaryOp) (place : Span) (operand : Nat)
  | binary (op : BinaryOp) (place : Span) (left right : Nat)
  | subscript (target index : Nat)
  deriving DecidableEq, Repr

structure Node where
  form : Form
  span : Span
  deriving DecidableEq, Repr

/-- Equality of nodes with floats compared as numbers. -/
def Node.same (first second : Node) : Bool :=
  first.span == second.span &&
    match first.form, second.form with
    | .literal value, .literal other => value.same other
    | form, other => form == other

/-- The node store. Nodes are only ever appended, and nothing checks that the children they name
exist. -/
structure Arena where
  nodes : Array Node
  deriving DecidableEq, Repr

namespace Arena

def empty : Arena := ⟨#[]⟩

def size (arena : Arena) : Nat := arena.nodes.size

def isEmpty (arena : Arena) : Bool := arena.nodes.isEmpty

def get? (arena : Arena) (index : Nat) : Option Node := arena.nodes[index]?

/-- Appends a node; its position is the size before. -/
def push (arena : Arena) (node : Node) : Arena := ⟨arena.nodes.push node⟩

/-- Extends the range of a node to cover another one; no node of that position, no
change. -/
def widen (arena : Arena) (index : Nat) (span : Span) : Arena :=
  ⟨arena.nodes.modify index fun node => { node with span := node.span.cover span }⟩

theorem get?_push (arena : Arena) (node : Node) (index : Nat) :
    (arena.push node).get? index = if index = arena.size then some node else arena.get? index := by
  simp only [push, get?, size, Array.getElem?_push]
  rfl

@[simp] theorem size_push (arena : Arena) (node : Node) :
    (arena.push node).size = arena.size + 1 := by
  simp [push, size]

@[simp] theorem size_widen (arena : Arena) (index : Nat) (span : Span) :
    (arena.widen index span).size = arena.size := by
  simp [widen, size]

end Arena

end ClamSyntax
