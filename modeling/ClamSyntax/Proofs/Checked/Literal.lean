import ClamSyntax.Proofs.Checked.Scanner
import ClamSyntax.Literal
import ClamSyntax.SyntaxError

namespace ClamSyntax.Checked

open Text (octets onByte Narrow Ascii)

def digit (byte : UInt8) : Except Fault Nat := sub byte.toNat '0'.toNat

def foldDigits (step : α → Nat → α) (value : α) (text : List Char) : Except Fault α :=
  (octets text).foldlM (fun value byte => (digit byte).map (step value)) value

def integer (text : List Char) : Except Fault Int32 :=
  foldDigits (fun value digit => value * 10 + Int32.ofNat digit) 0 text

def accumulate (text : List Char) : Except Fault Float :=
  foldDigits (fun value digit => value * 10 + Float.ofNat digit) 0 text

def decimal (text : List Char) : Except Fault Binary64 := do
  let fraction := (text.dropWhile (· != '.')).tail
  let whole ← accumulate (text.takeWhile (· != '.'))
  let part ← accumulate fraction
  return .ofFloat (whole + part / Literal.timesPower 1 10 (Text.size fraction))

def badEscape (quoted : Span) (offset : Nat) (escape : Char) : Except Fault SyntaxError := do
  let start ← add32 (← add32 quoted.start 1) (offset32 offset)
  let stop ← add32 (← add32 start 1) (offset32 escape.utf8Size)
  return .invalidEscape quoted (← range start stop) escape

def unescapeFrom (quoted : Span) (before : List Char) (offset : Nat) :
    List Char → Except Fault (Except SyntaxError (List Char))
  | [] => .ok (.ok before.reverse)
  | ['\\'] => .error .dangling
  | '\\' :: escape :: rest =>
    match Literal.escaped? escape with
    | some c => unescapeFrom quoted (c :: before) (offset + 1 + escape.utf8Size) rest
    | none => (badEscape quoted offset escape).map .error
  | c :: rest => unescapeFrom quoted (c :: before) (offset + c.utf8Size) rest

def unescape (quoted : Span) (text : List Char) :
    Except Fault (Except SyntaxError (List Char)) := do
  let body ← slice text ⟨1, ← sub (Text.size text) 1⟩
  unescapeFrom quoted [] 0 body

def literal (source : List Char) (token : Placed) : Except Fault (Except SyntaxError Value) := do
  let text ← slice source token.span
  match token.kind with
  | .symbol .kwUnit => return .ok .unit
  | .symbol .kwTrue => return .ok (.bool true)
  | .symbol .kwFalse => return .ok (.bool false)
  | .integer => return .ok (.int (← integer text))
  | .decimal => return .ok (.float (← decimal text))
  | .quoted => return (← unescape token.span text).map fun body => .str (String.ofList body)
  | kind => .error (.noLiteral kind)

private theorem digit_eq {c : Char} (isDigit : c.isDigit = true) :
    digit c.toUInt8 = .ok (Literal.digitValue c) := by
  have narrow := ascii_isDigit c isDigit
  simp only [Char.isDigit, Bool.and_eq_true, decide_eq_true_eq, ge_iff_le] at isDigit
  have low : '0'.toNat ≤ c.toNat := UInt32.le_iff_toNat_le.mp isDigit.1
  have value : c.toUInt8.toNat = c.toNat := congrArg Char.toNat (Text.encode_narrow narrow).2
  rw [digit, value, sub_eq low]
  rfl

theorem foldDigits_eq {text : List Char} (digits : ∀ c ∈ text, c.isDigit = true)
    (step : α → Nat → α) (value : α) :
    foldDigits step value text =
      .ok (text.foldl (fun value c => step value (Literal.digitValue c)) value) := by
  unfold foldDigits
  induction text generalizing value with
  | nil => rfl
  | cons c text ih =>
    obtain ⟨here, behind⟩ := List.forall_mem_cons.mp digits
    rw [Text.octets_cons, (Text.encode_narrow (ascii_isDigit c here)).1, List.singleton_append,
      List.foldlM_cons, digit_eq here]
    exact ih behind _

private theorem decimal_eq {whole fraction : List Char} (wholeDigits : Lexer.IsNumeral whole)
    (fractionDigits : Lexer.IsNumeral fraction) :
    decimal (whole ++ '.' :: fraction) = .ok (Literal.decimal whole fraction) := by
  have noPoint : ∀ c ∈ whole, (c != '.') = true := by
    intro c member
    refine bne_iff_ne.mpr ?_
    rintro rfl
    exact absurd (wholeDigits.2 '.' member) (by decide)
  have point : ∀ c ∈ ('.' :: fraction).head?, (c != '.') = false := by
    rintro c ⟨⟩
    rfl
  have width : Text.size fraction = fraction.length :=
    Text.size_narrow fun c member => ascii_isDigit c (fractionDigits.2 c member)
  rw [decimal, Lexer.takeWhile_before noPoint point, Lexer.dropWhile_before noPoint point,
    accumulate, foldDigits_eq wholeDigits.2, List.tail_cons, accumulate,
    foldDigits_eq fractionDigits.2, width]
  rfl

def escapeError (token : Token) (fault : Literal.BadEscape) : SyntaxError :=
  let start := token.start + 1 + fault.offset
  .invalidEscape token.span ⟨start, start + 1 + fault.escape.utf8Size⟩ fault.escape

private theorem badEscape_eq (token : Token) {offset : Nat} {escape : Char}
    (fits : token.start + 1 + offset + 1 + escape.utf8Size < UInt32.size) :
    badEscape token.span offset escape = .ok (escapeError token ⟨offset, escape⟩) := by
  have start : token.span.start = token.start := rfl
  rw [badEscape, start, offset32_eq (by omega), offset32_eq (by omega), add32_eq (by omega),
    ok_bind, add32_eq (by omega), ok_bind, add32_eq (by omega), ok_bind, add32_eq (by omega),
    ok_bind, range_eq (by omega)]
  rfl

private theorem unescapeFrom_eq (token : Token) (before : List Char) (offset : Nat)
    (text : List Char)
    (proper : Lexer.isStringBody text = true)
    (fits : token.start + 1 + offset + Text.size text < UInt32.size) :
    unescapeFrom token.span before offset text =
      .ok ((Literal.unescapeFrom before offset text).mapError (escapeError token)) := by
  fun_induction Literal.unescapeFrom before offset text with
  | case1 => rfl
  | case2 => cases proper
  | case3 before offset escape rest c found ih =>
    have width : ('\\' : Char).utf8Size = 1 := rfl
    rw [Text.size_cons, Text.size_cons, width] at fits
    rw [unescapeFrom, found]
    exact ih proper (by omega)
  | case4 before offset escape rest found =>
    have width : ('\\' : Char).utf8Size = 1 := rfl
    rw [Text.size_cons, Text.size_cons, width] at fits
    rw [unescapeFrom, found, badEscape_eq token (by omega)]
    rfl
  | case5 before offset c rest noEnd noEscape ih =>
    have plain : c ≠ '\\' := Lexer.ne_backslash noEnd noEscape
    rw [Lexer.isStringBody_cons plain, Bool.and_eq_true] at proper
    rw [Text.size_cons] at fits
    rw [unescapeFrom]
    · exact ih proper.2 (by omega)
    · exact noEnd
    · exact noEscape

/-- In a text that no scanner gives, a backslash stands last between the quotes. -/
example : unescape ⟨0, 3⟩ ['"', '\\', '"'] = .error .dangling := rfl

/-- The value of a token of the source that begins with a literal; no operation fails on the way. -/
theorem literal_eq {source : List Char} {token : Token} {value : Except Literal.BadEscape Value}
    (marks : token.span.Marks source token.text) (proper : token.lexeme.Proper)
    (isLiteral : Literal.value? token.lexeme = some value) (fits : Text.size source < UInt32.size) :
    literal source token.placed = .ok (value.mapError (escapeError token)) := by
  have inside := marks.stop_le
  obtain ⟨-, before, after, split, place⟩ := marks
  have text : slice source token.span = .ok token.text := by
    rw [split, place]
    exact slice_append ..
  obtain ⟨lexeme, start⟩ := token
  change (slice source (Token.mk lexeme start).span >>= _) = _
  rw [text, ok_bind]
  cases lexeme with
  | symbol fixed =>
    cases fixed with
    | kwUnit | kwTrue | kwFalse =>
      injection isLiteral with same
      rw [← same]
      rfl
    | _ => cases isLiteral
  | integer digits =>
    injection isLiteral with same
    change (integer digits >>= _) = _
    rw [integer, foldDigits_eq proper.2, ← same]
    rfl
  | decimal whole fraction =>
    injection isLiteral with same
    change (decimal (whole ++ '.' :: fraction) >>= _) = _
    rw [decimal_eq proper.1 proper.2, ← same]
    rfl
  | quoted body =>
    injection isLiteral with same
    have width : ('"' : Char).utf8Size = 1 := rfl
    have sizes : Text.size ('"' :: (body ++ ['"'])) = 1 + Text.size body + 1 := by
      simp only [Text.size_cons, Text.size_append, Text.size_nil, width]
      omega
    have ends : start + Text.size ('"' :: (body ++ ['"'])) ≤ Text.size source := inside
    have cut : slice ('"' :: (body ++ ['"'])) ⟨1, 1 + Text.size body⟩ = .ok body :=
      slice_append ['"'] body ['"']
    rw [sizes] at ends
    change (unescape (Token.mk (.quoted body) start).span ('"' :: (body ++ ['"'])) >>= _) = _
    rw [unescape, sizes, sub_eq (Nat.le_add_left ..), ok_bind, Nat.add_sub_cancel, cut, ok_bind,
      unescapeFrom_eq ⟨.quoted body, start⟩ [] 0 body proper (by
        change start + 1 + 0 + Text.size body < UInt32.size
        omega), ok_bind, ← same]
    rw [Literal.unescape]
    cases Literal.unescapeFrom [] 0 body <;> rfl
  | _ => cases isLiteral

end ClamSyntax.Checked
