import ClamSyntax.Operator

namespace ClamSyntax

inductive Opcode where
  /-- push a constant; the operand is its position in the pool -/
  | const
  /-- bind the top of the stack to the next local slot -/
  | bind
  /-- push a local; the operand is its slot -/
  | get
  /-- print the top of the stack and leave it there -/
  | print
  /-- pop a condition and jump if it is true -/
  | jumpIf
  | jump
  | call
  | ret
  | binary (op : BinaryOp)
  | unary (op : UnaryOp)
  deriving DecidableEq, Repr

namespace Opcode

def word : Opcode → UInt16
  | const => 0
  | bind => 1
  | get => 2
  | print => 3
  | jumpIf => 4
  | jump => 5
  | call => 6
  | ret => 7
  | binary op => UInt16.ofNat op.tag
  | unary op => UInt16.ofNat op.tag

def all : List Opcode :=
  [const, bind, get, print, jumpIf, jump, call, ret] ++
    (BinaryOp.all.map binary ++ UnaryOp.all.map unary)

/-- The instruction that a word encodes. -/
def ofWord? (word : UInt16) : Option Opcode := all.find? (·.word == word)

theorem ofWord?_word (opcode : Opcode) : ofWord? opcode.word = some opcode := by
  cases opcode with
  | binary op => cases op <;> decide
  | unary op => cases op <;> decide
  | _ => decide

end Opcode

/-- The number of values that sixteen bits can number. -/
def operandLimit : Nat := 65536

def operand? (number : Nat) : Option Nat := if number < operandLimit then some number else none

inductive LimitError where
  | tooManyConstants
  | tooManyLocals
  deriving DecidableEq, Repr

def LimitError.message : LimitError → String
  | tooManyConstants =>
    "too many constants in one chunk (limit is " ++ toString operandLimit ++ ")"
  | tooManyLocals =>
    "too many local variables in scope (limit is " ++ toString operandLimit ++ ")"

end ClamSyntax
