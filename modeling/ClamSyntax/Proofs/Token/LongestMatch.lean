import ClamSyntax.Proofs.Token.Tiling

/-! The longest match. A token is the longest spelling that stands at its place in the source,
and of a keyword's spelling it is the keyword. Where no spelling stands the token is invalid:
the whole rest of the source behind a quote that is never closed, else one character. -/

namespace ClamSyntax.Lexer

/-- What may stand between the quotes of a string: any character but the quote and the
backslash, and a backslash with any character behind it. -/
inductive StringBody : List Char → Prop
  | empty : StringBody []
  | plain {c : Char} {rest : List Char} : c ≠ '"' → c ≠ '\\' → StringBody rest →
      StringBody (c :: rest)
  | escaped (c : Char) {rest : List Char} : StringBody rest → StringBody ('\\' :: c :: rest)

/-- The spellings of a class of tokens. The spelling of a keyword is that of an identifier too. -/
inductive Spelling : TokenKind → List Char → Prop
  | symbol (fixed : Symbol) : Spelling (.symbol fixed) fixed.spelling.toList
  | identifier {first : Char} {rest : List Char} : isWordStart first = true →
      (∀ c ∈ rest, isWordPart c = true) → Spelling .identifier (first :: rest)
  | integer {digits : List Char} : IsNumeral digits → Spelling .integer digits
  | decimal {whole fraction : List Char} : IsNumeral whole → IsNumeral fraction →
      Spelling .decimal (whole ++ '.' :: fraction)
  | quoted {body : List Char} : StringBody body → Spelling .quoted ('"' :: (body ++ ['"']))

/-- The part of the text that is its longest spelling, and the class of that spelling. Where it
has two classes, the class is a keyword. -/
structure LongestSpelling (text part : List Char) (kind : TokenKind) : Prop where
  ahead : part <+: text
  spelling : Spelling kind part
  longest : ∀ (otherKind : TokenKind) (other : List Char), Spelling otherKind other →
    other <+: text → other.length ≤ part.length
  precedence : ∀ otherKind : TokenKind, Spelling otherKind part →
    otherKind = kind ∨ otherKind = .identifier ∧ ∃ keyword ∈ Symbol.keywords, kind = .symbol keyword

theorem stringBody_iff {body : List Char} : StringBody body ↔ isStringBody body = true := by
  constructor
  · intro proper
    induction proper with
    | empty => rfl
    | plain noQuote noBackslash _ ih =>
      rw [isStringBody_cons noBackslash]
      simp [noQuote, ih]
    | escaped _ _ ih => exact ih
  · intro proper
    fun_induction isStringBody body with
    | case1 => exact .empty
    | case2 => cases proper
    | case3 escaped rest ih => exact .escaped escaped (ih proper)
    | case4 c rest noEnd noEscape ih =>
      obtain ⟨noQuote, inner⟩ : c ≠ '"' ∧ isStringBody rest = true := by simpa using proper
      exact .plain noQuote (ne_backslash noEnd noEscape) (ih inner)

/-! Spellings and proper lexemes -/

theorem spelling_of_proper {lex : Lexeme} (proper : lex.Proper) : Spelling lex.kind lex.text := by
  cases lex with
  | symbol fixed => exact .symbol fixed
  | integer digits => exact .integer proper
  | decimal whole fraction => exact .decimal proper.1 proper.2
  | quoted body => exact .quoted (stringBody_iff.mpr proper)
  | identifier name =>
    obtain ⟨⟨first, head, start⟩, parts, -⟩ := proper
    obtain ⟨rest, same⟩ := List.head?_eq_some_iff.mp head
    rw [same] at parts
    rw [Lexeme.text, same]
    exact .identifier start (List.forall_mem_cons.mp parts).2
  | invalid text => cases proper
  | endOfInput => cases proper

/-- Every spelling is the text of a proper lexeme, of the same class unless it is a keyword's. -/
theorem exists_proper_of_spelling {kind : TokenKind} {text : List Char}
    (spelling : Spelling kind text) : ∃ lex : Lexeme, lex.Proper ∧ lex.text = text ∧
      (kind = lex.kind ∨
        kind = .identifier ∧ ∃ keyword ∈ Symbol.keywords, lex.kind = .symbol keyword) := by
  cases spelling with
  | symbol fixed => exact ⟨.symbol fixed, trivial, rfl, .inl rfl⟩
  | integer numeral => exact ⟨.integer text, numeral, rfl, .inl rfl⟩
  | @decimal whole fraction first second =>
    exact ⟨.decimal whole fraction, ⟨first, second⟩, rfl, .inl rfl⟩
  | @quoted body proper => exact ⟨.quoted body, stringBody_iff.mp proper, rfl, .inl rfl⟩
  | @identifier first rest start parts =>
    by_cases reserved : ∃ keyword ∈ Symbol.keywords, keyword.spelling.toList = first :: rest
    · obtain ⟨keyword, listed, same⟩ := reserved
      exact ⟨.symbol keyword, trivial, same, .inr ⟨rfl, keyword, listed, rfl⟩⟩
    · refine ⟨.identifier (String.ofList (first :: rest)), ⟨⟨first, by simp, start⟩, ?_, ?_⟩,
        by simp [Lexeme.text], .inl rfl⟩
      · rw [String.toList_ofList]
        exact List.forall_mem_cons.mpr ⟨isWordPart_of_isWordStart start, parts⟩
      · intro keyword listed same
        exact reserved ⟨keyword, listed, by rw [same, String.toList_ofList]⟩

/-- A text is that of one proper lexeme at most. -/
theorem eq_of_text {lex other : Lexeme} (proper : lex.Proper) (properOther : other.Proper)
    (same : lex.text = other.text) : lex = other := by
  obtain ⟨first, more, spelled, -, -, read⟩ := lexeme_of_proper proper
  obtain ⟨head, rest, spelledOther, -, -, readOther⟩ := lexeme_of_proper properOther
  rw [spelled, spelledOther] at same
  cases same
  have found := (read [] nofun).symm.trans (readOther [] nofun)
  exact congrArg Prod.fst found

/-! What is read is as long as any proper lexeme at the same place -/

/-- The lexeme is proper and takes at least the text. -/
def Covers (lex : Lexeme) (text : List Char) : Prop :=
  lex.Proper ∧ text.length ≤ lex.text.length

variable {first : Char} {rest text after : List Char}

theorem length_le_takeWhile {p : Char → Bool} (all : ∀ c ∈ text, p c = true)
    (after : List Char) : text.length ≤ ((text ++ after).takeWhile p).length := by
  rw [List.takeWhile_append_of_pos all, List.length_append]
  exact Nat.le_add_right ..

private theorem lexeme_covers_word (start : isWordStart first = true)
    (parts : ∀ c ∈ text, isWordPart c = true) (same : text ++ after = first :: rest) :
    Covers (lexeme first rest).1 text := by
  have part := isWordPart_of_isWordStart start
  rw [lexeme_word start, ← same]
  constructor
  · have begins : ((text ++ after).takeWhile isWordPart).head? = some first := by
      rw [same, List.takeWhile_cons, if_pos part]
      rfl
    exact word_proper begins start fun c member =>
      List.all_eq_true.mp List.all_takeWhile c member
  · rw [word_text]
    exact length_le_takeWhile parts after

private theorem number_text_length (text : List Char) :
    (text.takeWhile Char.isDigit).length ≤ (number text).1.text.length := by
  unfold number
  split
  · split
    · simp only [Lexeme.text, List.length_append]
      exact Nat.le_add_right ..
    · exact Nat.le_refl _
  · exact Nat.le_refl _

private theorem lexeme_covers_integer (numeral : IsNumeral text)
    (same : text ++ after = first :: rest) :
    Covers (lexeme first rest).1 text := by
  obtain ⟨c, more, rfl⟩ := List.exists_cons_of_ne_nil numeral.1
  have digit := numeral.2 c List.mem_cons_self
  obtain ⟨rfl, sameRest⟩ := List.cons.inj same
  rw [lexeme_number digit]
  constructor
  · exact number_proper digit rest
  · refine Nat.le_trans ?_ (number_text_length _)
    rw [← same]
    exact length_le_takeWhile numeral.2 after

private theorem lexeme_covers_decimal {whole fraction : List Char} (numeral : IsNumeral whole)
    (behind : IsNumeral fraction) (same : whole ++ '.' :: fraction ++ after = first :: rest) :
    Covers (lexeme first rest).1 (whole ++ '.' :: fraction) := by
  have point : ∀ c ∈ ('.' :: (fraction ++ after)).head?, c.isDigit = false := by
    rintro c ⟨⟩
    rfl
  have split : first :: rest = whole ++ '.' :: (fraction ++ after) := by
    rw [← same, List.append_assoc, List.cons_append]
  have digit : first.isDigit = true := by
    obtain ⟨c, more, rfl⟩ := List.exists_cons_of_ne_nil numeral.1
    obtain ⟨rfl, -⟩ := List.cons.inj split
    exact numeral.2 _ List.mem_cons_self
  obtain ⟨next, more, rfl⟩ := List.exists_cons_of_ne_nil behind.1
  have read : number (first :: rest) = (.decimal whole ((next :: more ++ after).takeWhile
      Char.isDigit), (next :: more ++ after).dropWhile Char.isDigit) := by
    rw [split]
    unfold number
    rw [dropWhile_before numeral.2 point, takeWhile_before numeral.2 point]
    exact if_pos (behind.2 next List.mem_cons_self)
  have long := length_le_takeWhile behind.2 after
  rw [lexeme_number digit]
  constructor
  · exact number_proper digit rest
  · rw [read]
    simp only [Lexeme.text, List.length_append, List.length_cons] at long ⊢
    omega

private theorem lexeme_covers_quoted {body : List Char} (proper : isStringBody body = true)
    (same : '"' :: (body ++ ['"']) ++ after = first :: rest) :
    Covers (lexeme first rest).1 ('"' :: (body ++ ['"'])) := by
  obtain ⟨rfl, sameRest⟩ := List.cons.inj same
  have closes := closingQuote_of_proper proper [] after
  have split : rest = body ++ '"' :: after := by
    rw [← sameRest]
    exact List.append_assoc ..
  rw [lexeme, if_pos rfl, split, closes]
  exact ⟨proper, Nat.le_refl _⟩

private theorem mark?_longest {fixed : Symbol} (listed : fixed ∈ Symbol.marks) (rest : List Char) :
    ∃ found behind, mark? (fixed.spelling.toList ++ rest) = some (found, behind) ∧
      fixed.spelling.toList.length ≤ found.spelling.toList.length := by
  have sorted : Symbol.marks.Pairwise fun earlier later =>
      later.spelling.toList.length ≤ earlier.spelling.toList.length := by
    decide
  have fits : ((Text.after? fixed.spelling.toList (fixed.spelling.toList ++ rest)).map
      fun rest => (fixed, rest)) = some (fixed, rest) := by
    rw [Text.after?_eq_some_iff.mpr rfl]
    rfl
  have hit : (mark? (fixed.spelling.toList ++ rest)).isSome := by
    refine List.findSome?_isSome_iff.mpr ⟨fixed, listed, ?_⟩
    rw [fits]
    rfl
  obtain ⟨⟨found, behind⟩, same⟩ := Option.isSome_iff_exists.mp hit
  obtain ⟨before, other, later, split, here, missed⟩ := List.findSome?_eq_some_iff.mp same
  simp only [Option.map_eq_some_iff, Prod.mk.injEq] at here
  obtain ⟨_, -, rfl, -⟩ := here
  refine ⟨other, behind, same, ?_⟩
  rw [split] at listed sorted
  rcases List.mem_append.mp listed with early | late
  · have none := missed fixed early
    rw [fits] at none
    cases none
  · rcases List.mem_cons.mp late with rfl | later
    · exact Nat.le_refl _
    · exact List.rel_of_pairwise_cons (List.pairwise_append.mp sorted).2.1 later

private theorem lexeme_covers_mark {fixed : Symbol} (listed : fixed ∈ Symbol.marks)
    (same : fixed.spelling.toList ++ after = first :: rest) :
    Covers (lexeme first rest).1 fixed.spelling.toList := by
  obtain ⟨head, more, spelled, -, -, read⟩ := mark_begins listed
  obtain ⟨found, behind, hit, long⟩ := mark?_longest listed after
  obtain rfl : head = first := by
    rw [spelled] at same
    exact (List.cons.inj same).1
  rw [same] at hit
  rw [read, hit]
  exact ⟨trivial, long⟩

/-- No proper lexeme at the place is longer than the one that is read. -/
theorem lexeme_covers {lex : Lexeme} (proper : lex.Proper) (ahead : lex.text <+: first :: rest) :
    Covers (lexeme first rest).1 lex.text := by
  obtain ⟨after, same⟩ := ahead
  cases lex with
  | symbol fixed =>
    by_cases keyword : fixed ∈ Symbol.keywords
    · obtain ⟨⟨head, more, spelled, start⟩, parts, -⟩ := keyword_spelled keyword
      obtain rfl : head = first := by
        rw [Lexeme.text, spelled] at same
        exact (List.cons.inj same).1
      exact lexeme_covers_word start parts same
    · exact lexeme_covers_mark ((Symbol.mem_keywords_or_marks fixed).resolve_left keyword) same
  | integer digits => exact lexeme_covers_integer proper same
  | decimal whole fraction => exact lexeme_covers_decimal proper.1 proper.2 same
  | quoted body => exact lexeme_covers_quoted proper same
  | identifier name =>
    obtain ⟨⟨head, begins, start⟩, parts, -⟩ := proper
    obtain ⟨more, spelled⟩ := List.head?_eq_some_iff.mp begins
    obtain rfl : head = first := by
      rw [Lexeme.text, spelled] at same
      exact (List.cons.inj same).1
    exact lexeme_covers_word start parts same
  | invalid text => cases proper
  | endOfInput => cases proper

private theorem lexeme_longestSpelling {kind : TokenKind} (spelling : Spelling kind text)
    (ahead : text <+: first :: rest) :
    LongestSpelling (first :: rest) (lexeme first rest).1.text (lexeme first rest).1.kind := by
  have covers {kind : TokenKind} {text : List Char} (spelling : Spelling kind text)
      (ahead : text <+: first :: rest) : Covers (lexeme first rest).1 text := by
    obtain ⟨lex, proper, rfl, -⟩ := exists_proper_of_spelling spelling
    exact lexeme_covers proper ahead
  have proper := (covers spelling ahead).1
  refine ⟨⟨_, lexeme_lossless first rest⟩, spelling_of_proper proper,
    fun _ _ other before => (covers other before).2, fun otherKind other => ?_⟩
  obtain ⟨lex, properOther, same, kinds⟩ := exists_proper_of_spelling other
  rw [eq_of_text properOther proper same] at kinds
  exact kinds

private theorem lexeme_invalid (found : (lexeme first rest).1 = .invalid text) :
    text = if first = '"' then first :: rest else [first] := by
  unfold lexeme at found
  by_cases quote : first = '"'
  · rw [if_pos quote] at found ⊢
    split at found
    · cases found
    · cases found
      rfl
  · rw [if_neg quote] at found ⊢
    split at found
    · rename_i digit
      have proper := number_proper digit rest
      rw [found] at proper
      cases proper
    · split at found
      · unfold word at found
        split at found <;> cases found
      · split at found
        · cases found
        · cases found
          rfl

private theorem lexeme_of_no_spelling
    (absent : ∀ kind text, Spelling kind text → ¬ text <+: first :: rest) :
    (lexeme first rest).1 = .invalid (if first = '"' then first :: rest else [first]) := by
  have improper : ¬ (lexeme first rest).1.Proper := fun proper =>
    absent _ _ (spelling_of_proper proper) ⟨_, lexeme_lossless first rest⟩
  obtain ⟨text, invalid⟩ := (lexeme_proper first rest).resolve_left improper
  rw [invalid, lexeme_invalid invalid]

/-- Every token of a source but its end is the longest spelling at its place, and invalid where
there is none. -/
theorem token_longest {source : List Char} {token : Token}
    (member : token ∈ tokensToEnd source) (inside : token.kind ≠ .endOfInput) :
    ∃ before first rest, source = before ++ first :: rest ∧ token.start = Text.size before ∧
      ((∃ kind text, Spelling kind text ∧ text <+: first :: rest) →
        LongestSpelling (first :: rest) token.text token.kind) ∧
      ((¬ ∃ kind text, Spelling kind text ∧ text <+: first :: rest) → token.kind = .invalid ∧
        token.text = if first = '"' then first :: rest else [first]) := by
  rcases List.mem_append.mp member with read | last
  · obtain ⟨before, first, rest, same, place, lexemeEq⟩ := tokensFrom_read 0 source token read
    rw [Nat.zero_add] at place
    refine ⟨before, first, rest, same, place, ?_, ?_⟩
    · rintro ⟨kind, text, spelling, ahead⟩
      rw [Token.text, Token.kind, lexemeEq]
      exact lexeme_longestSpelling spelling ahead
    · intro absent
      have none : ∀ kind text, Spelling kind text → ¬ text <+: first :: rest :=
        fun kind text spelling ahead => absent ⟨kind, text, spelling, ahead⟩
      have invalid := lexeme_of_no_spelling none
      rw [Token.text, Token.kind, lexemeEq, invalid]
      exact ⟨rfl, rfl⟩
  · rw [List.mem_singleton.mp last] at inside
    exact absurd rfl inside

/-- At the head of `1.2.3` stands the float `1.2`. -/
theorem version_number_longest :
    LongestSpelling "1.2.3".toList ['1', '.', '2'] .decimal := by
  have found : skip false 0 "1.2.3".toList = (0, '1' :: ['.', '2', '.', '3']) := by decide
  have member : (⟨.decimal ['1'] ['2'], 0⟩ : Token) ∈ tokensToEnd "1.2.3".toList := by
    refine List.mem_append_left _ ?_
    rw [tokens, tokensFrom_cons found]
    exact List.mem_cons_self
  have inside : TokenKind.decimal ≠ .endOfInput := by decide
  obtain ⟨before, first, rest, same, place, longest, -⟩ := token_longest member inside
  have front : before = [] := by
    cases before with
    | nil => rfl
    | cons c before =>
      have wide := Text.size_pos_of_ne_nil (List.cons_ne_nil c before)
      rw [← place] at wide
      exact absurd wide (Nat.lt_irrefl 0)
  rw [front, List.nil_append] at same
  rw [← same] at longest
  have digit : IsNumeral ['1'] := ⟨List.cons_ne_nil '1' [], List.forall_mem_singleton.mpr rfl⟩
  exact longest ⟨.integer, ['1'], .integer digit, ['.', '2', '.', '3'], rfl⟩

end ClamSyntax.Lexer
