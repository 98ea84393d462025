import ClamSyntax.Span

/-! Widths of text in bytes and the text under a byte range. A text is a list of
characters; a byte range names a part of it only when both ends fall between two
characters. -/

namespace ClamSyntax.Text

/-- The number of bytes that the text takes in UTF-8. -/
def size (text : List Char) : Nat := text.foldr (fun c width => c.utf8Size + width) 0

@[simp] theorem size_nil : size [] = 0 := rfl

@[simp] theorem size_cons (head : Char) (text : List Char) :
    size (head :: text) = head.utf8Size + size text := rfl

@[simp] theorem size_append (first second : List Char) :
    size (first ++ second) = size first + size second := by
  induction first with
  | nil => simp
  | cons head rest ih => simp [ih, Nat.add_assoc]

theorem size_pos_of_ne_nil {text : List Char} (nonempty : text ≠ []) : 0 < size text := by
  cases text with
  | nil => exact absurd rfl nonempty
  | cons head rest =>
    have positive := head.utf8Size_pos
    rw [size_cons]
    omega

/-- What follows a fixed text at the head of another. -/
def after? : List Char → List Char → Option (List Char)
  | [], text => some text
  | _ :: _, [] => none
  | c :: fixed, head :: text => if c = head then after? fixed text else none

theorem after?_eq_some_iff {fixed text rest : List Char} :
    after? fixed text = some rest ↔ text = fixed ++ rest := by
  induction fixed generalizing text with
  | nil => simp [after?]
  | cons c fixed ih =>
    cases text with
    | nil => simp [after?]
    | cons head text => by_cases same : c = head <;> simp [after?, same, ih, Ne.symm]

/-- The text after the given number of bytes, if that many bytes end at a character. -/
def drop? : Nat → List Char → Option (List Char)
  | 0, text => some text
  | _ + 1, [] => none
  | width + 1, head :: text =>
    if head.utf8Size ≤ width + 1 then drop? (width + 1 - head.utf8Size) text else none

/-- Moves the given number of bytes from the text to the reversed part before it. -/
def takeFrom? (before : List Char) : Nat → List Char → Option (List Char)
  | 0, _ => some before.reverse
  | _ + 1, [] => none
  | width + 1, head :: text =>
    if head.utf8Size ≤ width + 1 then
      takeFrom? (head :: before) (width + 1 - head.utf8Size) text
    else none

/-- The first bytes of the text, if that many bytes end at a character. -/
def take? (width : Nat) (text : List Char) : Option (List Char) := takeFrom? [] width text

/-- The text under a byte range; none if the range runs backwards, leaves the text
or cuts a character. -/
def slice? (text : List Char) (span : Span) : Option (List Char) :=
  if span.start ≤ span.stop then (drop? span.start text).bind (take? span.length) else none

theorem drop?_size_append (first second : List Char) :
    drop? (size first) (first ++ second) = some second := by
  induction first with
  | nil => simp [drop?]
  | cons head rest ih =>
    obtain ⟨width, same⟩ : ∃ width, head.utf8Size + size rest = width + 1 :=
      ⟨head.utf8Size + size rest - 1, by have := head.utf8Size_pos; omega⟩
    have fits : head.utf8Size ≤ width + 1 := by omega
    have left : width + 1 - head.utf8Size = size rest := by omega
    rw [size_cons, same, List.cons_append, drop?, if_pos fits, left, ih]

private theorem takeFrom?_size_append (before first second : List Char) :
    takeFrom? before (size first) (first ++ second) = some (before.reverse ++ first) := by
  induction first generalizing before with
  | nil => simp [takeFrom?]
  | cons head rest ih =>
    obtain ⟨width, same⟩ : ∃ width, head.utf8Size + size rest = width + 1 :=
      ⟨head.utf8Size + size rest - 1, by have := head.utf8Size_pos; omega⟩
    have fits : head.utf8Size ≤ width + 1 := by omega
    have left : width + 1 - head.utf8Size = size rest := by omega
    rw [size_cons, same, List.cons_append, takeFrom?, if_pos fits, left, ih]
    simp

/-- The range that a part of a text occupies names that part. -/
theorem slice?_append (before part after : List Char) :
    slice? (before ++ part ++ after) ⟨size before, size before + size part⟩ = some part := by
  have ordered : size before ≤ size before + size part := Nat.le_add_right ..
  rw [slice?, if_pos ordered, List.append_assoc, drop?_size_append]
  simp [Span.length, take?, takeFrom?_size_append]

end ClamSyntax.Text
