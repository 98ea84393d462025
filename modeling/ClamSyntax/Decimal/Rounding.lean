namespace ClamSyntax.Decimal

/-- Which of two equally near values is taken. -/
inductive Tie where
  | toEven
  | up
  deriving DecidableEq, Repr

def Tie.goesUp (tie : Tie) (below : Nat) : Bool :=
  match tie with
  | toEven => below % 2 == 1
  | up => true

/-- The natural number nearest to a quotient. -/
def roundDiv (tie : Tie) (numerator denominator : Nat) : Nat :=
  let below := numerator / denominator
  let left := 2 * (numerator % denominator)
  if left < denominator then below
  else if denominator < left then below + 1
  else if tie.goesUp below then below + 1 else below

/-- The result is within half a unit of the quotient. -/
theorem roundDiv_near (tie : Tie) (numerator : Nat) {denominator : Nat}
    (positive : 0 < denominator) :
    2 * numerator ≤ (2 * roundDiv tie numerator denominator + 1) * denominator ∧
      2 * roundDiv tie numerator denominator * denominator ≤ 2 * numerator + denominator := by
  have whole := Nat.div_add_mod numerator denominator
  have small := Nat.mod_lt numerator positive
  rw [Nat.mul_comm] at whole
  unfold roundDiv
  simp only
  generalize numerator / denominator = below at whole ⊢
  generalize numerator % denominator = left at whole small ⊢
  split
  · constructor <;> grind
  · split
    · constructor <;> grind
    · split <;> constructor <;> grind

end ClamSyntax.Decimal
