import ClamSyntax.Bytecode.Opcode
import ClamSyntax.Json
import Std.Data.HashMap

/-! A constant pool and the code that refers to it. Equal constants share one position;
floats are equal when their bits are. -/

namespace ClamSyntax

structure Chunk where
  constants : Array Value
  code : Array UInt16
  /-- the position of every constant -/
  positions : Std.HashMap Value Nat

namespace Chunk

def empty : Chunk := ⟨#[], #[], ∅⟩

/-- The position of a constant, and the chunk that holds it there. The constant is
appended if the pool lacks it and has room; without room nothing changes. -/
def intern (chunk : Chunk) (value : Value) : Except LimitError Nat × Chunk :=
  match chunk.positions[value]? with
  | some position => (.ok position, chunk)
  | none =>
    let position := chunk.constants.size
    if position < operandLimit then
      (.ok position,
        { chunk with
          constants := chunk.constants.push value
          positions := chunk.positions.insert value position })
    else (.error .tooManyConstants, chunk)

def emitWord (chunk : Chunk) (word : UInt16) : Chunk :=
  { chunk with code := chunk.code.push word }

def emit (chunk : Chunk) (opcode : Opcode) : Chunk := chunk.emitWord opcode.word

def json (chunk : Chunk) : Json :=
  .object
    [("constants", .array (chunk.constants.toList.map Json.ofValue)),
      ("code", .array (chunk.code.toList.map fun word => Json.natural word.toNat))]

end Chunk

end ClamSyntax
