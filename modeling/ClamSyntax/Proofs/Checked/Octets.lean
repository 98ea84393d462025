import ClamSyntax.Text.Utf8

/-! The bytes of a text. A byte below 128 is a character of its own, and no other byte is ever
taken for one: what looks for such characters byte by byte finds what it would find character by
character. -/

namespace ClamSyntax.Text

def octets (text : List Char) : List UInt8 := text.flatMap String.utf8EncodeChar

@[simp] theorem octets_nil : octets [] = [] := rfl

theorem octets_cons (c : Char) (text : List Char) :
    octets (c :: text) = String.utf8EncodeChar c ++ octets text := List.flatMap_cons

@[simp] theorem octets_append (first second : List Char) :
    octets (first ++ second) = octets first ++ octets second := List.flatMap_append

@[simp] theorem length_octets (text : List Char) : (octets text).length = size text := by
  induction text with
  | nil => rfl
  | cons c text ih => simp [octets_cons, ih]

theorem drop_octets (first second : List Char) :
    (octets (first ++ second)).drop (size first) = octets second := by
  rw [octets_append, ← length_octets, List.drop_left]

/-- The character takes one byte. -/
def Narrow (c : Char) : Prop := c.toNat < 128

instance (c : Char) : Decidable (Narrow c) := inferInstanceAs (Decidable (c.toNat < 128))

theorem ne_of_not_narrow {c other : Char} (notNarrow : ¬ Narrow c) (narrow : Narrow other) :
    c ≠ other := by
  rintro rfl
  exact notNarrow narrow

/-- No byte is that of a narrow character. -/
def Wide (bytes : List UInt8) : Prop := ∀ byte ∈ bytes, ¬ Narrow (Char.ofUInt8 byte)

theorem encode_narrow {c : Char} (narrow : Narrow c) :
    String.utf8EncodeChar c = [c.toUInt8] ∧ Char.ofUInt8 c.toUInt8 = c := by
  have small : c.val.toNat ≤ 127 := Nat.le_of_lt_succ narrow
  constructor
  · rw [String.utf8EncodeChar, if_pos small]
    rfl
  · apply Char.ext
    apply UInt32.toNat_inj.mp
    change c.val.toNat % 256 = c.val.toNat
    omega

theorem utf8Size_narrow {c : Char} (narrow : Narrow c) : c.utf8Size = 1 := by
  have width := String.length_utf8EncodeChar c
  rw [(encode_narrow narrow).1] at width
  exact width.symm

theorem size_narrow {text : List Char} (narrow : ∀ c ∈ text, Narrow c) :
    size text = text.length := by
  induction text with
  | nil => rfl
  | cons c text ih =>
    obtain ⟨here, behind⟩ := List.forall_mem_cons.mp narrow
    rw [size_cons, utf8Size_narrow here, ih behind, List.length_cons, Nat.add_comm]

private theorem not_narrow_ofNat {n : Nat} (high : 128 ≤ n) (low : n < 256) :
    ¬ Narrow (Char.ofUInt8 (UInt8.ofNat n)) := by
  have value : (Char.ofUInt8 (UInt8.ofNat n)).toNat = n % 256 := rfl
  rw [Narrow, value]
  omega

private theorem encode_wide {c : Char} (notNarrow : ¬ Narrow c) :
    Wide (String.utf8EncodeChar c) := by
  have large : ¬ c.val.toNat ≤ 127 := fun small => notNarrow (Nat.lt_succ_of_le small)
  rw [String.utf8EncodeChar, if_neg large]
  have marked {n : Nat} (bound : n + 128 < 256) :=
    not_narrow_ofNat (Nat.le_add_left 128 n) bound
  split
  · simp only [Wide, List.forall_mem_cons]
    exact ⟨not_narrow_ofNat (by omega) (by omega), marked (by omega), List.forall_mem_nil _⟩
  · split
    · simp only [Wide, List.forall_mem_cons]
      exact ⟨not_narrow_ofNat (by omega) (by omega), marked (by omega), marked (by omega),
        List.forall_mem_nil _⟩
    · simp only [Wide, List.forall_mem_cons]
      exact ⟨not_narrow_ofNat (by omega) (by omega), marked (by omega), marked (by omega),
        marked (by omega), List.forall_mem_nil _⟩

/-- A character is a single byte or several that are nothing else. -/
theorem octets_cons_cases (c : Char) (text : List Char) :
    (Narrow c ∧ c.utf8Size = 1 ∧
        ∃ byte, octets (c :: text) = byte :: octets text ∧ Char.ofUInt8 byte = c) ∨
      (¬ Narrow c ∧ ∃ byte more, octets (c :: text) = byte :: (more ++ octets text) ∧
        Wide (byte :: more) ∧ c.utf8Size = more.length + 1) := by
  by_cases narrow : Narrow c
  · obtain ⟨bytes, back⟩ := encode_narrow narrow
    exact .inl ⟨narrow, utf8Size_narrow narrow, _, by rw [octets_cons, bytes]; rfl, back⟩
  · have wide := encode_wide narrow
    have width := String.length_utf8EncodeChar c
    cases bytes : String.utf8EncodeChar c with
    | nil => exact absurd bytes String.utf8EncodeChar_ne_nil
    | cons byte more =>
      rw [bytes] at wide width
      exact .inr ⟨narrow, byte, more, by rw [octets_cons, bytes]; rfl, wide, width.symm⟩

/-- The test holds of narrow characters only. -/
def Ascii (test : Char → Bool) : Prop := ∀ c, test c = true → Narrow c

/-- The test of characters, made of bytes. -/
def onByte (test : Char → Bool) (byte : UInt8) : Bool := test (Char.ofUInt8 byte)

theorem Ascii.eq_false {test : Char → Bool} (ascii : Ascii test) {bytes : List UInt8}
    (wide : Wide bytes) {byte : UInt8} (member : byte ∈ bytes) : onByte test byte = false :=
  Bool.eq_false_iff.mpr fun holds => wide byte member (ascii _ holds)

theorem ascii_eq {c : Char} (narrow : Narrow c) : Ascii (· == c) := by
  intro other same
  rw [beq_iff_eq.mp same]
  exact narrow

variable {test : Char → Bool}

theorem countP_octets (ascii : Ascii test) (text : List Char) :
    (octets text).countP (onByte test) = text.countP test := by
  induction text with
  | nil => rfl
  | cons c text ih =>
    rcases octets_cons_cases c text with ⟨-, -, byte, bytes, same⟩ | ⟨notNarrow, byte, more, bytes,
      wide, -⟩
    · have agrees : onByte test byte = test c := congrArg test same
      rw [bytes, List.countP_cons, List.countP_cons, ih, agrees]
    · have fails : ¬ test c = true := fun holds => notNarrow (ascii c holds)
      have none : (byte :: more).countP (onByte test) = 0 :=
        List.countP_eq_zero.mpr fun other member => by simp [ascii.eq_false wide member]
      rw [bytes, ← List.cons_append, List.countP_append, none, List.countP_cons_of_neg fails, ih,
        Nat.zero_add]

/-- Byte by byte a run of narrow characters is as long as character by character. -/
theorem span_octets (ascii : Ascii test) (text : List Char) :
    (octets text).takeWhile (onByte test) = octets (text.takeWhile test) ∧
      (octets text).dropWhile (onByte test) = octets (text.dropWhile test) := by
  induction text with
  | nil => exact ⟨rfl, rfl⟩
  | cons c text ih =>
    rcases octets_cons_cases c text with ⟨-, -, byte, bytes, same⟩ | ⟨notNarrow, byte, more, bytes,
      wide, -⟩
    · have agrees : onByte test byte = test c := congrArg test same
      cases holds : test c with
      | true =>
        have front : octets (c :: text.takeWhile test) = byte :: octets (text.takeWhile test) := by
          have split := octets_cons c text
          rw [bytes, ← List.singleton_append] at split
          rw [octets_cons, ← (List.append_cancel_right split)]
          rfl
        rw [bytes, List.takeWhile_cons, List.dropWhile_cons, List.takeWhile_cons,
          List.dropWhile_cons, agrees, holds]
        exact ⟨by rw [if_pos rfl, if_pos rfl, front, ih.1], ih.2⟩
      | false =>
        rw [List.takeWhile_cons, List.dropWhile_cons, holds, bytes, List.takeWhile_cons,
          List.dropWhile_cons, agrees, holds]
        exact ⟨rfl, bytes.symm⟩
    · have fails : test c = false := Bool.eq_false_iff.mpr fun holds => notNarrow (ascii c holds)
      rw [List.takeWhile_cons, List.dropWhile_cons, fails, bytes, List.takeWhile_cons,
        List.dropWhile_cons, ascii.eq_false wide List.mem_cons_self]
      exact ⟨rfl, bytes.symm⟩

end ClamSyntax.Text
