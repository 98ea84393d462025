import ClamSyntax.Arena
import ClamSyntax.Token

/-! Operations that can fail. The reading of a source takes slices, subtracts, looks nodes up and
makes ranges; here each of them says what goes wrong where its condition does not hold. -/

namespace ClamSyntax.Checked

/-- What stops a program that runs into it. -/
inductive Fault where
  /-- a slice outside the text or through a character -/
  | slice (span : Span)
  /-- a position outside the bytes -/
  | outside (offset : Nat)
  /-- a node that is not in the store -/
  | index (index : Nat)
  /-- a range that ends before it starts -/
  | reversed (start stop : Nat)
  /-- a difference below zero -/
  | underflow (first second : Nat)
  /-- a sum of 32 bits or more -/
  | overflow (first second : Nat)
  /-- bounds in the wrong order -/
  | clamp (low high : Nat)
  /-- the value of a token that is no literal -/
  | noLiteral (kind : TokenKind)
  /-- a backslash that nothing follows -/
  | dangling
  deriving DecidableEq, Repr

/-- An offset in 32 bits. -/
def offset32 (offset : Nat) : Nat := offset % UInt32.size

def sub (first second : Nat) : Except Fault Nat :=
  if second ≤ first then .ok (first - second) else .error (.underflow first second)

def add32 (first second : Nat) : Except Fault Nat :=
  if first + second < UInt32.size then .ok (first + second) else .error (.overflow first second)

def clamp (value low high : Nat) : Except Fault Nat :=
  if low ≤ high then .ok (max low (min value high)) else .error (.clamp low high)

def range (start stop : Nat) : Except Fault Span :=
  if start ≤ stop then .ok ⟨start, stop⟩ else .error (.reversed start stop)

def slice (text : List Char) (span : Span) : Except Fault (List Char) :=
  match Text.slice? text span with
  | some part => .ok part
  | none => .error (.slice span)

def node (arena : Arena) (index : Nat) : Except Fault Node :=
  match arena.get? index with
  | some node => .ok node
  | none => .error (.index index)

def widen (arena : Arena) (index : Nat) (span : Span) : Except Fault Arena :=
  (node arena index).map fun _ => arena.widen index span

@[simp] theorem ok_bind (value : α) (next : α → Except Fault β) :
    (Except.ok value >>= next) = next value := rfl

variable {first second start stop value low high : Nat}

theorem offset32_eq {offset : Nat} (fits : offset < UInt32.size) : offset32 offset = offset :=
  Nat.mod_eq_of_lt fits

theorem sub_eq (ordered : second ≤ first) : sub first second = .ok (first - second) :=
  if_pos ordered

theorem add32_eq (fits : first + second < UInt32.size) :
    add32 first second = .ok (first + second) :=
  if_pos fits

theorem clamp_eq (ordered : low ≤ high) :
    clamp value low high = .ok (max low (min value high)) := if_pos ordered

theorem range_eq (ordered : start ≤ stop) : range start stop = .ok ⟨start, stop⟩ :=
  if_pos ordered

private theorem slice_eq {text part : List Char} {span : Span}
    (found : Text.slice? text span = some part) :
    slice text span = .ok part := by
  rw [slice, found]

theorem slice_append (before part after : List Char) :
    slice (before ++ part ++ after) ⟨Text.size before, Text.size before + Text.size part⟩ =
      .ok part :=
  slice_eq (Text.slice?_append before part after)

/-- A cut through a character fails. -/
example : slice ['é'] ⟨1, 2⟩ = .error (.slice ⟨1, 2⟩) := rfl

theorem node_eq {arena : Arena} {index : Nat} {found : Node}
    (present : arena.get? index = some found) : node arena index = .ok found := by
  rw [node, present]

theorem widen_eq {arena : Arena} {index : Nat} {found : Node} (span : Span)
    (present : arena.get? index = some found) :
    widen arena index span = .ok (arena.widen index span) := by
  rw [widen, node_eq present]
  rfl

end ClamSyntax.Checked
