import ClamSyntax.Proofs.Token.Boundary
import Mathlib

/-! Texts joined by a newline. Nothing that is read looks past a newline, except a string that
is open there: a comment ends, and so does every other lexeme. So the tokens of the whole are
those of the first text and then those of the second, moved behind it. -/

namespace ClamSyntax.Lexer

theorem run_before_stop {p : Char → Bool} {stop : Char} (outside : p stop = false)
    (text other : List Char) :
    (text ++ stop :: other).takeWhile p = text.takeWhile p ∧
      (text ++ stop :: other).dropWhile p = text.dropWhile p ++ stop :: other := by
  induction text with
  | nil => simp [outside]
  | cons c text ih => by_cases inside : p c = true <;> simp [inside, ih]

private theorem skip_newline (inComment : Bool) (offset : Nat) (text other : List Char) :
    skip inComment offset (text ++ '\n' :: other) =
      match skip inComment offset text with
      | (stop, []) => skip false (stop + 1) other
      | (start, first :: rest) => (start, first :: (rest ++ '\n' :: other)) := by
  fun_induction skip inComment offset text with
  | case1 inComment offset => cases inComment <;> rfl
  | case2 offset c rest ih => rw [List.cons_append, skip, if_pos rfl, ih]
  | case3 inComment offset c rest outside blank ih =>
    rw [List.cons_append, skip, if_neg outside, if_pos blank, ih]
  | case4 inComment offset rest outside noBlank ih =>
    rw [List.cons_append, skip, if_neg outside, if_neg noBlank, if_pos rfl, ih]
  | case5 inComment offset c rest outside noBlank noHash =>
    rw [List.cons_append, skip, if_neg outside, if_neg noBlank, if_neg noHash]

private theorem number_newline (text other : List Char) :
    number (text ++ '\n' :: other) = ((number text).1, (number text).2 ++ '\n' :: other) := by
  obtain ⟨taken, left⟩ := run_before_stop (rfl : Char.isDigit '\n' = false) text other
  unfold number
  rw [taken, left]
  cases text.dropWhile Char.isDigit with
  | nil => rfl
  | cons c behind =>
    by_cases point : c = '.'
    · subst point
      cases behind with
      | nil => rfl
      | cons next rest =>
        obtain ⟨fraction, after⟩ :=
          run_before_stop (rfl : Char.isDigit '\n' = false) (next :: rest) other
        rw [List.cons_append] at fraction after
        simp only [List.cons_append, fraction, after]
        split <;> rfl
    · simp [point]

private theorem closingQuote_append {before text body after : List Char}
    (found : closingQuote before text = some (body, after)) (other : List Char) :
    closingQuote before (text ++ other) = some (body, after ++ other) := by
  fun_induction closingQuote before text with
  | case1 => cases found
  | case2 => cases found
  | case3 before escaped rest ih => exact ih found
  | case4 before rest =>
    obtain ⟨rfl, rfl⟩ := Prod.mk.inj (Option.some.inj found)
    exact closingQuote_cons (by decide) before (rest ++ other)
  | case5 before c rest noEnd noEscape noQuote ih =>
    rw [List.cons_append, closingQuote_cons (ne_backslash noEnd noEscape), if_neg noQuote, ih found]

private theorem after?_newline {fixed : List Char} (oneLine : '\n' ∉ fixed)
    (text other : List Char) :
    Text.after? fixed (text ++ '\n' :: other) =
      (Text.after? fixed text).map (· ++ '\n' :: other) := by
  induction fixed generalizing text with
  | nil => rfl
  | cons c fixed ih =>
    rw [List.mem_cons, not_or] at oneLine
    cases text with
    | nil => simp [Text.after?, Ne.symm oneLine.1]
    | cons head text =>
      rw [List.cons_append, Text.after?, Text.after?]
      split
      · exact ih oneLine.2 text
      · rfl

private theorem mark?_newline (text other : List Char) :
    mark? (text ++ '\n' :: other) =
      (mark? text).map fun found => (found.1, found.2 ++ '\n' :: other) := by
  have oneLine : ∀ symbol ∈ Symbol.marks, '\n' ∉ symbol.spelling.toList := by decide
  unfold mark?
  generalize Symbol.marks = symbols at oneLine ⊢
  induction symbols with
  | nil => rfl
  | cons symbol symbols ih =>
    obtain ⟨here, behind⟩ := List.forall_mem_cons.mp oneLine
    rw [List.findSome?_cons, List.findSome?_cons, after?_newline here]
    cases Text.after? symbol.spelling.toList text with
    | none => exact ih behind
    | some rest => rfl

/-- A lexeme that is no open string ends at the newline at the latest. -/
theorem lexeme_newline {first : Char} {rest : List Char}
    (closed : ∀ text, (lexeme first rest).1 ≠ .invalid ('"' :: text)) (other : List Char) :
    lexeme first (rest ++ '\n' :: other) =
      ((lexeme first rest).1, (lexeme first rest).2 ++ '\n' :: other) := by
  unfold lexeme at closed ⊢
  by_cases quote : first = '"'
  · simp only [if_pos quote] at closed ⊢
    cases found : closingQuote [] rest with
    | some cut => rw [closingQuote_append found]
    | none =>
      rw [found, quote] at closed
      exact absurd rfl (closed rest)
  · simp only [if_neg quote]
    by_cases digit : first.isDigit = true
    · simp only [if_pos digit]
      exact number_newline (first :: rest) other
    · simp only [if_neg digit]
      by_cases start : isWordStart first = true
      · obtain ⟨taken, left⟩ :=
          run_before_stop (rfl : isWordPart '\n' = false) (first :: rest) other
        rw [List.cons_append] at taken left
        simp only [if_pos start, taken, left]
      · simp only [if_neg start]
        rw [← List.cons_append, mark?_newline]
        cases mark? (first :: rest) <;> rfl

/-- No string is open where the text ends: no token is a quote and all that stands behind it. -/
def NoOpenString (tokens : List Token) : Prop :=
  ∀ token ∈ tokens, token.kind = .invalid → token.text.head? ≠ some '"'

instance (tokens : List Token) : Decidable (NoOpenString tokens) :=
  inferInstanceAs (Decidable (∀ token ∈ tokens, _))

private theorem NoOpenString.ne_open {token : Token} {tokens : List Token}
    (closed : NoOpenString tokens)
    (member : token ∈ tokens) (text : List Char) : token.lexeme ≠ .invalid ('"' :: text) := by
  intro same
  refine closed token member ?_ ?_
  · rw [Token.kind, same]
    rfl
  · rw [Token.text, same]
    rfl

/-- Behind the newline the tokens are those of the second text alone. -/
theorem tokensFrom_newline {offset : Nat} {text : List Char}
    (closed : NoOpenString (tokensFrom [] offset text)) (other : List Char) :
    tokensFrom [] offset (text ++ '\n' :: other) =
      tokensFrom [] offset text ++ tokensFrom [] (offset + Text.size text + 1) other := by
  revert closed
  apply tokensFrom_induction (motive := fun offset text tokens => NoOpenString tokens →
    tokensFrom [] offset (text ++ '\n' :: other) =
      tokens ++ tokensFrom [] (offset + Text.size text + 1) other) offset text
  · intro offset stop text found _
    have skipped := skip_newline false offset text other
    rw [found] at skipped
    rw [List.nil_append, ← (skip_to_end found).2]
    exact tokensFrom_of_skip skipped
  · intro offset start text first rest found ih closed
    obtain ⟨gap, same, place, -⟩ := skip_to_lexeme found
    have skipped := skip_newline false offset text other
    have read := lexeme_newline (closed.ne_open List.mem_cons_self) other
    have size : offset + Text.size text =
        start + Text.size (lexeme first rest).1.text + Text.size (lexeme first rest).2 := by
      have whole := congrArg Text.size (lexeme_lossless first rest)
      rw [Text.size_append] at whole
      rw [same, Text.size_append, ← whole, place]
      omega
    rw [found] at skipped
    rw [tokensFrom_cons skipped, read, size, List.cons_append,
      ih fun token member => closed token (List.mem_cons_of_mem _ member)]

/-- A text and another one behind a newline: if no string is open at the newline, the tokens are
those of the first text without its end, and then those of the second. Both ends of the range of
each of these are moved by the size of the first text and one. -/
theorem tokensToEnd_newline {first second : List Char} (closed : NoOpenString (tokensToEnd first)) :
    let behind := Token.relocate (Text.size first + 1 + ·)
    tokensToEnd (first ++ '\n' :: second) =
        (tokensToEnd first).dropLast ++ (tokensToEnd second).map behind ∧
      ∀ token, (behind token).kind = token.kind ∧ (behind token).text = token.text ∧
        (behind token).span = ⟨Text.size first + 1 + token.span.start,
          Text.size first + 1 + token.span.stop⟩ := by
  intro behind
  constructor
  · have closedTokens : NoOpenString (tokens first) := fun token member =>
      closed token (List.mem_append_left _ member)
    have ending : Text.size (first ++ '\n' :: second) =
        Text.size first + 1 + Text.size second := by
      rw [Text.size_append, Text.size_cons, Nat.add_assoc]
      rfl
    have moved := tokensFrom_shift (Text.size first + 1) 0 second
    rw [Nat.add_zero] at moved
    rw [tokensToEnd, tokens, tokensFrom_newline closedTokens, Nat.zero_add, moved, ending,
      tokensToEnd, List.dropLast_concat, tokensToEnd, List.map_append, List.append_assoc]
    rfl
  · intro token
    refine ⟨rfl, rfl, ?_⟩
    rw [Token.span, Token.stop, Token.span, Token.stop, ← Nat.add_assoc]
    rfl

/-- Before the newline stand a number with a point, a lone bar and a quote in a comment. -/
theorem string_behind_comment :
    let first := "f 1.| # \"".toList
    let second := "\"é\" # .5".toList
    NoOpenString (tokensToEnd first) ∧ tokensToEnd (first ++ '\n' :: second) =
      (tokensToEnd first).dropLast ++ (tokensToEnd second).map (Token.relocate (10 + ·)) := by
  have closed : NoOpenString (tokensToEnd "f 1.| # \"".toList) := by
    have read : tokensToEnd "f 1.| # \"".toList = [⟨.identifier "f", 0⟩, ⟨.integer ['1'], 2⟩,
        ⟨.invalid ['.'], 3⟩, ⟨.invalid ['|'], 4⟩, Token.atEnd 9] := by cbv
    rw [read]
    decide
  exact ⟨closed, (tokensToEnd_newline closed).1⟩

end ClamSyntax.Lexer
