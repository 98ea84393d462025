namespace ClamSyntax

/-- A half-open range of byte offsets. A range whose start lies past its stop is
a value too: it covers nothing, and every operation below is defined on it. -/
structure Span where
  start : Nat
  stop : Nat
  deriving DecidableEq, Repr, Inhabited

namespace Span

def point (offset : Nat) : Span := ⟨offset, offset⟩

/-- The least range that covers both. -/
def cover (first second : Span) : Span :=
  ⟨min first.start second.start, max first.stop second.stop⟩

def length (span : Span) : Nat := span.stop - span.start

def isEmpty (span : Span) : Bool := span.start == span.stop

theorem cover_comm (first second : Span) : first.cover second = second.cover first := by
  simp [cover, Nat.min_comm, Nat.max_comm]

theorem cover_assoc (first second third : Span) :
    (first.cover second).cover third = first.cover (second.cover third) := by
  simp [cover, Nat.min_assoc, Nat.max_assoc]

@[simp] theorem cover_self (span : Span) : span.cover span = span := by
  simp [cover]

end Span

end ClamSyntax
