import ClamSyntax.Token

/-! Reading tokens off a source text. Blanks and comments separate tokens; every
other character belongs to exactly one of them, to an invalid one if need be, so
reading never fails. `lexeme_lossless` says that nothing of the text is lost. -/

namespace ClamSyntax.Lexer

def isBlank (c : Char) : Bool := c == ' ' || c == '\t' || c == '\r' || c == '\n'

/-- Drops blanks and comments, a comment being all from `#` to the end of its line,
and says at which offset the remaining text starts. -/
def skip (inComment : Bool) (offset : Nat) : List Char → Nat × List Char
  | [] => (offset, [])
  | c :: rest =>
    if inComment then skip (c != '\n') (offset + c.utf8Size) rest
    else if isBlank c then skip false (offset + c.utf8Size) rest
    else if c = '#' then skip true (offset + c.utf8Size) rest
    else (offset, c :: rest)

def isWordStart (c : Char) : Bool := c.isAlpha || c == '_'

def isWordPart (c : Char) : Bool := c.isAlphanum || c == '_'

/-- What an identifier-shaped text denotes: the keyword of that spelling, if any. -/
def word (text : List Char) : Lexeme :=
  match Symbol.keywords.find? (·.spelling.toList == text) with
  | some symbol => .symbol symbol
  | none => .identifier (String.ofList text)

/-- Digits, and after them a fraction if the point is followed by a digit. -/
def number (text : List Char) : Lexeme × List Char :=
  match text.dropWhile Char.isDigit with
  | '.' :: next :: rest =>
    if next.isDigit then
      (.decimal (text.takeWhile Char.isDigit) ((next :: rest).takeWhile Char.isDigit),
        (next :: rest).dropWhile Char.isDigit)
    else (.integer (text.takeWhile Char.isDigit), '.' :: next :: rest)
  | rest => (.integer (text.takeWhile Char.isDigit), rest)

/-- Looks for the quote that closes a string; a backslash takes the character after
it along. The part before the quote is collected in reverse. -/
def closingQuote (before : List Char) : List Char → Option (List Char × List Char)
  | [] => none
  | ['\\'] => none
  | '\\' :: escaped :: rest => closingQuote (escaped :: '\\' :: before) rest
  | c :: rest => if c = '"' then some (before.reverse, rest) else closingQuote (c :: before) rest

/-- The punctuation symbol at the head of the text, the longest if several fit. -/
def mark? (text : List Char) : Option (Symbol × List Char) :=
  Symbol.marks.findSome? fun symbol =>
    (Text.after? symbol.spelling.toList text).map fun rest => (symbol, rest)

/-- The lexeme at the head of a text that starts with neither blank nor comment, and
the text after it. An unclosed string is invalid up to the end of the source; any
other character that begins nothing is invalid alone. -/
def lexeme (first : Char) (rest : List Char) : Lexeme × List Char :=
  if first = '"' then
    match closingQuote [] rest with
    | some (body, after) => (.quoted body, after)
    | none => (.invalid (first :: rest), [])
  else if first.isDigit then number (first :: rest)
  else if isWordStart first then
    (word ((first :: rest).takeWhile isWordPart), (first :: rest).dropWhile isWordPart)
  else
    match mark? (first :: rest) with
    | some (symbol, after) => (.symbol symbol, after)
    | none => (.invalid [first], rest)

theorem word_text (text : List Char) : (word text).text = text := by
  unfold word
  split
  · rename_i symbol found
    simpa [Lexeme.text] using List.find?_some found
  · simp [Lexeme.text]

private theorem number_lossless (text : List Char) :
    (number text).1.text ++ (number text).2 = text := by
  have whole := List.takeWhile_append_dropWhile (p := Char.isDigit) (l := text)
  unfold number
  split
  · rename_i next rest found
    rw [found] at whole
    split
    · have fraction :=
        List.takeWhile_append_dropWhile (p := Char.isDigit) (l := next :: rest)
      simp only [Lexeme.text, List.append_assoc, List.cons_append, fraction, whole]
    · exact whole
  · exact whole

theorem closingQuote_lossless {before text body after : List Char}
    (found : closingQuote before text = some (body, after)) :
    body ++ '"' :: after = before.reverse ++ text := by
  fun_induction closingQuote before text with
  | case1 => cases found
  | case2 => cases found
  | case3 before escaped rest ih => simpa using ih found
  | case4 before rest => simp_all
  | case5 before c rest _ _ _ ih => simpa using ih found

theorem mark?_lossless {text after : List Char} {symbol : Symbol}
    (found : mark? text = some (symbol, after)) :
    symbol.spelling.toList ++ after = text := by
  unfold mark? at found
  obtain ⟨other, _, fits⟩ := List.exists_of_findSome?_eq_some found
  simp only [Option.map_eq_some_iff, Prod.mk.injEq] at fits
  obtain ⟨rest, fits, rfl, rfl⟩ := fits
  exact (Text.after?_eq_some_iff.mp fits).symm

/-- A lexeme and what follows it are the text they were read from. -/
theorem lexeme_lossless (first : Char) (rest : List Char) :
    (lexeme first rest).1.text ++ (lexeme first rest).2 = first :: rest := by
  unfold lexeme
  split
  · rename_i isQuote
    split
    · rename_i body after found
      have := closingQuote_lossless found
      simp_all [Lexeme.text]
    · simp [Lexeme.text]
  · split
    · exact number_lossless _
    · split
      · rw [word_text, List.takeWhile_append_dropWhile]
      · split
        · rename_i symbol after found
          exact mark?_lossless found
        · simp [Lexeme.text]

private theorem marks_spelled {symbol : Symbol} (member : symbol ∈ Symbol.marks) :
    symbol.spelling.toList ≠ [] := by
  cases symbol with
  | binary op => cases op <;> decide
  | _ => decide

private theorem number_text_ne_nil {first : Char} (digit : first.isDigit = true)
    (rest : List Char) :
    (number (first :: rest)).1.text ≠ [] := by
  unfold number
  split
  · split <;> simp [Lexeme.text, digit]
  · simp [Lexeme.text, digit]

theorem lexeme_text_ne_nil (first : Char) (rest : List Char) :
    (lexeme first rest).1.text ≠ [] := by
  unfold lexeme
  split
  · split <;> simp [Lexeme.text]
  · split
    · rename_i digit
      exact number_text_ne_nil digit rest
    · split
      · rename_i start
        have part : isWordPart first = true := by
          simp only [isWordStart, isWordPart, Char.isAlphanum, Bool.or_eq_true] at start ⊢
          exact start.imp_left Or.inl
        simp [word_text, part]
      · split
        · rename_i symbol after found
          obtain ⟨other, member, fits⟩ := List.exists_of_findSome?_eq_some found
          simp only [Option.map_eq_some_iff, Prod.mk.injEq] at fits
          obtain ⟨_, _, rfl, _⟩ := fits
          exact marks_spelled member
        · simp [Lexeme.text]

/-- A lexeme takes at least its first character. -/
theorem lexeme_rest_length_lt (first : Char) (rest : List Char) :
    (lexeme first rest).2.length < (first :: rest).length := by
  have whole := congrArg List.length (lexeme_lossless first rest)
  have some := List.length_pos_iff.mpr (lexeme_text_ne_nil first rest)
  rw [List.length_append] at whole
  omega

theorem skip_length_le (inComment : Bool) (offset : Nat) (text : List Char) :
    (skip inComment offset text).2.length ≤ text.length := by
  fun_induction skip inComment offset text with
  | case1 => simp
  | case2 _ _ _ ih => exact Nat.le_succ_of_le ih
  | case3 _ _ _ _ _ _ ih => exact Nat.le_succ_of_le ih
  | case4 _ _ _ _ _ ih => exact Nat.le_succ_of_le ih
  | case5 => simp

/-- The token at or after the offset at which the text starts, and the text after it. -/
def next (offset : Nat) (text : List Char) : Token × List Char :=
  match skip false offset text with
  | (start, []) => (Token.atEnd start, [])
  | (start, first :: rest) => (⟨(lexeme first rest).1, start⟩, (lexeme first rest).2)

/-- Appends the tokens of the text, which starts at the given offset, to the reversed
tokens before it. -/
def tokensFrom (before : List Token) (offset : Nat) (text : List Char) : List Token :=
  match _found : skip false offset text with
  | (_, []) => before.reverse
  | (start, first :: rest) =>
    let token : Token := ⟨(lexeme first rest).1, start⟩
    tokensFrom (token :: before) token.stop (lexeme first rest).2
termination_by text.length
decreasing_by
  have skipped := skip_length_le false offset text
  have shorter := lexeme_rest_length_lt first rest
  rw [_found] at skipped
  exact Nat.lt_of_lt_of_le shorter skipped

/-- The tokens of a source, without the one that marks its end. -/
def tokens (source : List Char) : List Token := tokensFrom [] 0 source

/-- The tokens of a source, the last one marking its end. -/
def tokensToEnd (source : List Char) : List Token :=
  tokens source ++ [Token.atEnd (Text.size source)]

end ClamSyntax.Lexer
