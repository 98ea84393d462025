import ClamSyntax.Literal
import Mathlib

/-! What an integer literal denotes. The digits are taken one by one and every step wraps to 32
bits. As wrapping respects sums and products it makes no difference when it is done, so the result
is the decimal value of all the digits, wrapped once. -/

namespace ClamSyntax.Literal

/-- The decimal value of digits, the last one of which counts units. -/
def decimalValue (digits : List Char) : Nat := Nat.ofDigits 10 (digits.map digitValue).reverse

/-- The decimal value is calculated digit by digit from the left. -/
theorem decimalValue_eq_ofDigitChars (digits : List Char) :
    decimalValue digits = Nat.ofDigitChars 10 digits 0 := by
  rw [decimalValue, Nat.ofDigits_eq_foldr, List.foldr_reverse, List.foldl_map,
    Nat.ofDigitChars_eq_foldl]
  exact congrFun (congrFun (congrArg List.foldl (funext₂ fun _ _ => Nat.add_comm _ _)) _) _

private theorem decimalValue_concat (digits : List Char) (digit : Char) :
    decimalValue (digits ++ [digit]) = decimalValue digits * 10 + digitValue digit := by
  rw [decimalValue_eq_ofDigitChars, decimalValue_eq_ofDigitChars, Nat.ofDigitChars_append,
    Nat.ofDigitChars_cons, Nat.ofDigitChars_nil, Nat.mul_comm]
  rfl

private theorem decimalValue_zeros (count : Nat) (digits : List Char) :
    decimalValue (List.replicate count '0' ++ digits) = decimalValue digits := by
  rw [decimalValue_eq_ofDigitChars, decimalValue_eq_ofDigitChars, Nat.ofDigitChars_append,
    Nat.ofDigitChars_replicate_zero, Nat.mul_zero]

/-- Wrapping at every digit comes to the same as wrapping the whole number. -/
theorem integer_eq_ofNat (digits : List Char) :
    integer digits = Int32.ofNat (decimalValue digits) := by
  induction digits using List.reverseRecOn with
  | nil => rfl
  | append_singleton digits digit ih =>
    have step : integer (digits ++ [digit]) =
        integer digits * 10 + Int32.ofNat (digitValue digit) := by
      rw [integer, List.foldl_append]
      rfl
    rw [step, ih, decimalValue_concat, Int32.ofNat_add, Int32.ofNat_mul]
    rfl

theorem integer_zeros (count : Nat) (digits : List Char) :
    integer (List.replicate count '0' ++ digits) = integer digits := by
  rw [integer_eq_ofNat, decimalValue_zeros, ← integer_eq_ofNat]

/-- Of the values of 32 bits one alone is congruent to a number modulo `2 ^ 32`. -/
theorem modEq_iff_eq_ofNat (value : Int32) (number : Nat) :
    value.toInt ≡ number [ZMOD 2 ^ 32] ↔ value = Int32.ofNat number := by
  have wrapped : (Int32.ofNat number).toInt = (number : Int).bmod (2 ^ 32) := Int32.toInt_ofNat'
  constructor
  · intro congruent
    have same : value.toInt.bmod (2 ^ 32) = (number : Int).bmod (2 ^ 32) := by
      rw [← Int.emod_bmod value.toInt, ← Int.emod_bmod (number : Int)]
      exact congrArg (Int.bmod · (2 ^ 32)) congruent
    exact Int32.toInt_inj.mp (value.toInt_bmod.symm.trans (same.trans wrapped.symm))
  · rintro rfl
    rw [wrapped]
    exact Int.bmod_emod

/-- The literal is the one value of 32 bits that is congruent to the decimal value. -/
theorem modEq_iff_eq_integer (value : Int32) (digits : List Char) :
    value.toInt ≡ decimalValue digits [ZMOD 2 ^ 32] ↔ value = integer digits := by
  rw [modEq_iff_eq_ofNat, integer_eq_ofNat]

/-- A literal that fits is exact. -/
theorem toInt_integer {digits : List Char} (fits : decimalValue digits ≤ 2147483647) :
    (integer digits).toInt = decimalValue digits := by
  rw [integer_eq_ofNat]
  exact Int32.toInt_ofNat_of_lt (Nat.lt_succ_of_le fits)

/-- Every value has a literal: the decimal digits of the number with its bits. -/
theorem exists_integer_eq (value : Int32) :
    ∃ digits : List Char, digits ≠ [] ∧ (∀ c ∈ digits, c.isDigit = true) ∧
      integer digits = value := by
  let bits := value.toUInt32.toNat
  refine ⟨Nat.toDigits 10 bits, Nat.toDigits_ne_nil, ?_, ?_⟩
  · intro c member
    exact Nat.isDigit_of_mem_toDigits (by omega) (by omega) member
  · rw [integer_eq_ofNat, decimalValue_eq_ofDigitChars, Nat.ofDigitChars_ten_toDigits]
    exact congrArg UInt32.toInt32 UInt32.ofNat_toNat

end ClamSyntax.Literal
