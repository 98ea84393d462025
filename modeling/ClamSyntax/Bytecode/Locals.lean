import ClamSyntax.Bytecode.Opcode

namespace ClamSyntax

/-- The names in scope, by slot. -/
structure Locals where
  names : Array String

namespace Locals

def empty : Locals := ⟨#[]⟩

def size (scope : Locals) : Nat := scope.names.size

def isEmpty (scope : Locals) : Bool := scope.names.isEmpty

/-- Brings a name into scope and returns its slot; without room nothing changes. -/
def push (scope : Locals) (name : String) : Except LimitError Nat × Locals :=
  if scope.size < operandLimit then (.ok scope.size, ⟨scope.names.push name⟩)
  else (.error .tooManyLocals, scope)

/-- Drops the innermost names, at most all. -/
def pop (scope : Locals) (count : Nat) : Locals := ⟨scope.names.take (scope.size - count)⟩

/-- The largest slot below a bound that holds a name. -/
def resolveBelow (scope : Locals) (name : String) : Nat → Option Nat
  | 0 => none
  | slot + 1 =>
    if scope.names[slot]? = some name then some slot else resolveBelow scope name slot

/-- The slot of the innermost variable of a name, as an operand. -/
def resolve? (scope : Locals) (name : String) : Option Nat :=
  (scope.resolveBelow name scope.size).bind operand?

end Locals

end ClamSyntax
