import ClamSyntax.Token.Lexer

namespace ClamSyntax

/-- No quote stands free in the text, and no backslash stands last. -/
def Lexer.isStringBody : List Char → Bool
  | [] => true
  | ['\\'] => false
  | '\\' :: _ :: rest => isStringBody rest
  | c :: rest => c != '"' && isStringBody rest

def Lexer.IsNumeral (digits : List Char) : Prop := digits ≠ [] ∧ ∀ c ∈ digits, c.isDigit = true

/-- The text of a lexeme of an open class is one that its class allows. -/
def Lexeme.Proper : Lexeme → Prop
  | .symbol _ => True
  | .integer digits => Lexer.IsNumeral digits
  | .decimal whole fraction => Lexer.IsNumeral whole ∧ Lexer.IsNumeral fraction
  | .quoted body => Lexer.isStringBody body = true
  | .identifier name =>
    (∃ c ∈ name.toList.head?, Lexer.isWordStart c = true) ∧
      (∀ c ∈ name.toList, Lexer.isWordPart c = true) ∧
      ∀ keyword ∈ Symbol.keywords, keyword.spelling ≠ name
  | .invalid _ | .endOfInput => False

namespace Lexer

theorem isWordPart_of_isWordStart {c : Char} (start : isWordStart c = true) :
    isWordPart c = true := by
  simp only [isWordStart, isWordPart, Char.isAlphanum, Bool.or_eq_true] at start ⊢
  exact start.imp_left Or.inl

theorem word_proper {text : List Char} {first : Char} (head : text.head? = some first)
    (start : isWordStart first = true) (parts : ∀ c ∈ text, isWordPart c = true) :
    (word text).Proper := by
  unfold word
  split
  · trivial
  · rename_i unknown
    refine ⟨⟨first, by simpa using head, start⟩, by simpa using parts, ?_⟩
    intro keyword member same
    have different := List.find?_eq_none.mp unknown keyword member
    simp [same] at different

theorem number_proper {first : Char} (digit : first.isDigit = true) (rest : List Char) :
    (number (first :: rest)).1.Proper := by
  have whole : IsNumeral ((first :: rest).takeWhile Char.isDigit) :=
    ⟨by simp [digit], fun c member => List.all_eq_true.mp List.all_takeWhile c member⟩
  unfold number
  split
  · rename_i next after _
    split
    · rename_i fraction
      exact ⟨whole, by simp [fraction],
        fun c member => List.all_eq_true.mp List.all_takeWhile c member⟩
    · exact whole
  · exact whole

theorem ne_backslash {c : Char} {rest : List Char} (noEnd : c = '\\' → rest = [] → False)
    (noEscape : ∀ escaped more, c = '\\' → rest = escaped :: more → False) : c ≠ '\\' := by
  intro backslash
  cases rest with
  | nil => exact noEnd backslash rfl
  | cons escaped rest => exact noEscape escaped rest backslash rfl

theorem isStringBody_cons {c : Char} (plain : c ≠ '\\') (rest : List Char) :
    isStringBody (c :: rest) = (c != '"' && isStringBody rest) := by
  rw [isStringBody.eq_def]
  split <;> simp_all

theorem closingQuote_cons {c : Char} (plain : c ≠ '\\') (before rest : List Char) :
    closingQuote before (c :: rest) =
      if c = '"' then some (before.reverse, rest) else closingQuote (c :: before) rest := by
  rw [closingQuote.eq_def]
  split <;> simp_all

/-- The closing quote is the first one that stands free. -/
theorem closingQuote_proper {before text body after : List Char}
    (found : closingQuote before text = some (body, after)) :
    ∃ inner, body = before.reverse ++ inner ∧ isStringBody inner = true := by
  fun_induction closingQuote before text with
  | case1 => cases found
  | case2 => cases found
  | case3 before escaped rest ih =>
    obtain ⟨inner, same, proper⟩ := ih found
    refine ⟨'\\' :: escaped :: inner, ?_, ?_⟩
    · simpa using same
    · rw [isStringBody]
      exact proper
  | case4 before rest =>
    cases found
    exact ⟨[], by simp, rfl⟩
  | case5 before c rest noEnd noEscape noQuote ih =>
    obtain ⟨inner, same, proper⟩ := ih found
    have plain : c ≠ '\\' := ne_backslash noEnd noEscape
    refine ⟨c :: inner, ?_, ?_⟩
    · simpa using same
    · rw [isStringBody_cons plain]
      simp [noQuote, proper]

theorem closingQuote_of_proper {body : List Char} (proper : isStringBody body = true)
    (before after : List Char) :
    closingQuote before (body ++ '"' :: after) = some (before.reverse ++ body, after) := by
  fun_induction isStringBody body generalizing before with
  | case1 => rw [List.nil_append, closingQuote_cons (by decide), if_pos rfl, List.append_nil]
  | case2 => cases proper
  | case3 escaped rest ih =>
    rw [List.cons_append, List.cons_append, closingQuote, ih proper]
    simp
  | case4 c rest noEnd noEscape ih =>
    obtain ⟨noQuote, inner⟩ : c ≠ '"' ∧ isStringBody rest = true := by simpa using proper
    rw [List.cons_append, closingQuote_cons (ne_backslash noEnd noEscape), if_neg noQuote,
      ih inner]
    simp

/-- A lexeme that is read is proper, or invalid. -/
theorem lexeme_proper (first : Char) (rest : List Char) :
    (lexeme first rest).1.Proper ∨ ∃ text, (lexeme first rest).1 = .invalid text := by
  unfold lexeme
  split
  · split
    · rename_i body after found
      obtain ⟨inner, same, proper⟩ := closingQuote_proper found
      rw [List.reverse_nil, List.nil_append] at same
      subst same
      exact .inl proper
    · exact .inr ⟨_, rfl⟩
  · split
    · rename_i digit
      exact .inl (number_proper digit rest)
    · split
      · rename_i start
        have part := isWordPart_of_isWordStart start
        exact .inl (word_proper (by rw [List.takeWhile_cons, if_pos part]; rfl) start
          fun c member => List.all_eq_true.mp List.all_takeWhile c member)
      · split
        · exact .inl trivial
        · exact .inr ⟨_, rfl⟩

theorem takeWhile_before {p : Char → Bool} {text rest : List Char}
    (all : ∀ c ∈ text, p c = true) (ends : ∀ c ∈ rest.head?, p c = false) :
    (text ++ rest).takeWhile p = text := by
  rw [List.takeWhile_append_of_pos all]
  cases rest with
  | nil => simp
  | cons stop rest => simp [ends stop rfl]

theorem dropWhile_before {p : Char → Bool} {text rest : List Char}
    (all : ∀ c ∈ text, p c = true) (ends : ∀ c ∈ rest.head?, p c = false) :
    (text ++ rest).dropWhile p = rest := by
  rw [List.dropWhile_append_of_pos all]
  cases rest with
  | nil => rfl
  | cons stop rest => simp [ends stop rfl]

end Lexer

/-- The characters that make a longer symbol of this one. -/
def Symbol.extensions : Symbol → List Char
  | assign => ['=', '>']
  | binary .add => ['+']
  | binary .lt | binary .gt => ['=']
  | _ => []

/-- The character, right behind the lexeme, would change it. -/
def Lexeme.Absorbs (c : Char) : Lexeme → Prop
  | .symbol fixed =>
    if fixed ∈ Symbol.keywords then Lexer.isWordPart c = true else c ∈ fixed.extensions
  | .integer _ => c.isDigit = true ∨ c = '.'
  | .decimal .. => c.isDigit = true
  | .identifier _ => Lexer.isWordPart c = true
  | .quoted _ | .invalid _ | .endOfInput => False

namespace Lexer

private theorem number_integer {digits rest : List Char} (numeral : IsNumeral digits)
    (ends : ∀ c ∈ rest.head?, ¬ (Lexeme.integer digits).Absorbs c) :
    number (digits ++ rest) = (.integer digits, rest) := by
  have noDigit : ∀ c ∈ rest.head?, c.isDigit = false := fun c head =>
    Bool.eq_false_iff.mpr fun digit => ends c head (.inl digit)
  unfold number
  rw [dropWhile_before numeral.2 noDigit, takeWhile_before numeral.2 noDigit]
  split
  · exact absurd (.inr rfl) (ends '.' rfl)
  · rfl

private theorem number_decimal {whole fraction rest : List Char} (numeral : IsNumeral whole)
    (after : IsNumeral fraction)
    (ends : ∀ c ∈ rest.head?, ¬ (Lexeme.decimal whole fraction).Absorbs c) :
    number (whole ++ '.' :: (fraction ++ rest)) = (.decimal whole fraction, rest) := by
  obtain ⟨present, digits⟩ := after
  have noDigit : ∀ c ∈ rest.head?, c.isDigit = false := fun c head =>
    Bool.eq_false_iff.mpr (ends c head)
  have point : ∀ c ∈ ('.' :: (fraction ++ rest)).head?, c.isDigit = false := by
    rintro c ⟨⟩
    rfl
  have taken := takeWhile_before digits noDigit
  have left := dropWhile_before digits noDigit
  cases fraction with
  | nil => exact absurd rfl present
  | cons next more =>
    unfold number
    rw [dropWhile_before numeral.2 point, takeWhile_before numeral.2 point]
    simp only [List.cons_append] at taken left ⊢
    rw [if_pos (digits next List.mem_cons_self), taken, left]

/-- The characters that end or open something other than a word or a number. -/
def separators : List Char := [' ', '\t', '\r', '\n', '#', '"']

theorem begins_of_class {p : Char → Bool} {c : Char} (member : p c = true)
    (others : separators.all (!p ·) = true) : isBlank c = false ∧ c ≠ '#' ∧ c ≠ '"' := by
  have apart : c ∉ separators := by
    intro listed
    have absent := List.all_eq_true.mp others c listed
    rw [member] at absent
    cases absent
  simp only [separators, List.mem_cons, List.not_mem_nil, or_false, not_or] at apart
  obtain ⟨noSpace, noTab, noReturn, noNewline, noHash, noQuote⟩ := apart
  refine ⟨?_, noHash, noQuote⟩
  simp only [isBlank, Bool.or_eq_false_iff, beq_eq_false_iff_ne]
  exact ⟨⟨⟨noSpace, noTab⟩, noReturn⟩, noNewline⟩

theorem lexeme_number {c : Char} (digit : c.isDigit = true) (rest : List Char) :
    lexeme c rest = number (c :: rest) := by
  obtain ⟨_, _, noQuote⟩ := begins_of_class digit rfl
  rw [lexeme, if_neg noQuote, if_pos digit]

private theorem word_of_not_keyword {name : String}
    (free : ∀ keyword ∈ Symbol.keywords, keyword.spelling ≠ name) :
    word name.toList = .identifier name := by
  have unknown : Symbol.keywords.find? (·.spelling.toList == name.toList) = none := by
    apply List.find?_eq_none.mpr
    intro keyword member same
    exact free keyword member (String.toList_inj.mp (by simpa using same))
  rw [word, unknown]
  simp

theorem not_isDigit_of_isWordStart {c : Char} (start : isWordStart c = true) :
    ¬ c.isDigit = true := by
  intro digit
  simp only [Char.isDigit, Bool.and_eq_true, decide_eq_true_eq, UInt32.le_iff_toNat_le] at digit
  obtain ⟨_, high⟩ := digit
  have limit : ('9' : Char).val.toNat = 57 := rfl
  simp only [isWordStart, Bool.or_eq_true, beq_iff_eq] at start
  rcases start with alpha | rfl
  · rcases (Bool.or_eq_true _ _).mp alpha with upper | lower
    · have low := UInt32.le_iff_toNat_le.mp (of_decide_eq_true upper).1
      have letter : ('A' : Char).val.toNat = 65 := rfl
      omega
    · have low := UInt32.le_iff_toNat_le.mp
        (of_decide_eq_true ((Bool.and_eq_true _ _).mp lower).1)
      have letter : ('a' : Char).val.toNat = 97 := rfl
      omega
  · exact absurd high (by decide)

theorem lexeme_word {c : Char} (start : isWordStart c = true) (rest : List Char) :
    lexeme c rest =
      (word ((c :: rest).takeWhile isWordPart), (c :: rest).dropWhile isWordPart) := by
  obtain ⟨_, _, noQuote⟩ := begins_of_class start rfl
  rw [lexeme, if_neg noQuote, if_neg (not_isDigit_of_isWordStart start), if_pos start]

theorem keyword_spelled {fixed : Symbol} (keyword : fixed ∈ Symbol.keywords) :
    (∃ first more, fixed.spelling.toList = first :: more ∧ isWordStart first = true) ∧
      (∀ c ∈ fixed.spelling.toList, isWordPart c = true) ∧
        word fixed.spelling.toList = .symbol fixed := by
  have all : ∀ fixed ∈ Symbol.keywords,
      fixed.spelling.toList.head?.any isWordStart = true ∧
        fixed.spelling.toList.all isWordPart = true ∧
          word fixed.spelling.toList = .symbol fixed := by
    decide
  obtain ⟨begins, parts, same⟩ := all fixed keyword
  obtain ⟨first, head, start⟩ := (Option.any_eq_true ..).mp begins
  obtain ⟨more, spelled⟩ := List.head?_eq_some_iff.mp head
  exact ⟨⟨first, more, spelled, start⟩, List.all_eq_true.mp parts, same⟩

theorem mark_begins {fixed : Symbol} (listed : fixed ∈ Symbol.marks) :
    ∃ first more, fixed.spelling.toList = first :: more ∧ isBlank first = false ∧ first ≠ '#' ∧
      ∀ rest, lexeme first rest = match mark? (first :: rest) with
        | some (symbol, after) => (.symbol symbol, after)
        | none => (.invalid [first], rest) := by
  have all : ∀ fixed ∈ Symbol.marks, fixed.spelling.toList.head?.any (fun first =>
      !isBlank first && first != '#' && first != '"' && !first.isDigit && !isWordStart first) =
        true := by
    decide
  obtain ⟨first, head, begins⟩ := (Option.any_eq_true ..).mp (all fixed listed)
  simp only [Bool.and_eq_true, Bool.not_eq_true', bne_iff_ne, ← Bool.not_eq_true] at begins
  obtain ⟨⟨⟨⟨noBlank, noHash⟩, noQuote⟩, noDigit⟩, noWord⟩ := begins
  obtain ⟨more, spelled⟩ := List.head?_eq_some_iff.mp head
  refine ⟨first, more, spelled, Bool.eq_false_iff.mpr noBlank, noHash, fun rest => ?_⟩
  have read := lexeme.eq_def first rest
  rw [if_neg noQuote, if_neg noDigit, if_neg noWord] at read
  exact read

private theorem marks_ordered :
    ∀ fixed ∈ Symbol.marks, ∀ earlier ∈ Symbol.marks.takeWhile (· ≠ fixed),
    ¬ earlier.spelling.toList <+: fixed.spelling.toList ∧
      (fixed.spelling.toList <+: earlier.spelling.toList →
        ∃ c ∈ fixed.extensions, earlier.spelling.toList = fixed.spelling.toList ++ [c]) := by
  have all : ∀ fixed ∈ Symbol.marks, ∀ earlier ∈ Symbol.marks.takeWhile (· ≠ fixed),
      ¬ earlier.spelling.toList <+: fixed.spelling.toList ∧
        (fixed.spelling.toList <+: earlier.spelling.toList → fixed.extensions.any (fun c =>
          decide (earlier.spelling.toList = fixed.spelling.toList ++ [c])) = true) := by
    decide +kernel
  intro fixed listed earlier before
  obtain ⟨noPart, extension⟩ := all fixed listed earlier before
  refine ⟨noPart, fun part => ?_⟩
  obtain ⟨c, member, same⟩ := List.any_eq_true.mp (extension part)
  exact ⟨c, member, of_decide_eq_true same⟩

private theorem mark?_spelled {fixed : Symbol} (listed : fixed ∈ Symbol.marks) {rest : List Char}
    (ends : ∀ c ∈ rest.head?, c ∉ fixed.extensions) :
    mark? (fixed.spelling.toList ++ rest) = some (fixed, rest) := by
  have all : ∀ fixed ∈ Symbol.marks, (Symbol.marks.dropWhile (· ≠ fixed)).head? = some fixed := by
    decide
  obtain ⟨others, found⟩ := List.head?_eq_some_iff.mp (all fixed listed)
  have split := List.takeWhile_append_dropWhile (p := (· ≠ fixed)) (l := Symbol.marks)
  rw [found] at split
  refine List.findSome?_eq_some_iff.mpr ⟨_, fixed, others, split.symm, ?_, fun earlier before => ?_⟩
  · rw [Text.after?_eq_some_iff.mpr rfl]
    rfl
  · obtain ⟨noPart, extension⟩ := marks_ordered fixed listed earlier before
    rw [Option.map_eq_none_iff]
    refine Option.eq_none_iff_forall_ne_some.mpr fun after fits => ?_
    have same := Text.after?_eq_some_iff.mp fits
    have fixedFirst := List.prefix_append fixed.spelling.toList rest
    rw [same] at fixedFirst
    rcases List.prefix_or_prefix_of_prefix (List.prefix_append _ after) fixedFirst with part | part
    · exact noPart part
    · obtain ⟨c, listed, spelled⟩ := extension part
      rw [spelled, List.append_assoc] at same
      have head := List.append_cancel_left same
      exact ends c (by rw [head]; rfl) listed

private theorem lexeme_mark {fixed : Symbol} (listed : fixed ∈ Symbol.marks) :
    ∃ first more, fixed.spelling.toList = first :: more ∧ isBlank first = false ∧ first ≠ '#' ∧
      ∀ rest, (∀ c ∈ rest.head?, c ∉ fixed.extensions) →
        lexeme first (more ++ rest) = (.symbol fixed, rest) := by
  obtain ⟨first, more, spelled, noBlank, noHash, same⟩ := mark_begins listed
  refine ⟨first, more, spelled, noBlank, noHash, fun rest ends => ?_⟩
  have found := mark?_spelled listed ends
  rw [spelled, List.cons_append] at found
  rw [same, found]

/-- A proper lexeme is read back from its text before anything that it does not absorb. -/
theorem lexeme_of_proper {lex : Lexeme} (proper : lex.Proper) :
    ∃ first more, lex.text = first :: more ∧ isBlank first = false ∧ first ≠ '#' ∧
      ∀ rest, (∀ c ∈ rest.head?, ¬ lex.Absorbs c) →
        lexeme first (more ++ rest) = (lex, rest) := by
  cases lex with
  | symbol fixed =>
    by_cases keyword : fixed ∈ Symbol.keywords
    · obtain ⟨⟨first, more, same, start⟩, parts, spelled⟩ := keyword_spelled keyword
      obtain ⟨noBlank, noHash, _⟩ := begins_of_class start rfl
      refine ⟨first, more, same, noBlank, noHash, fun rest ends => ?_⟩
      have noPart : ∀ c ∈ rest.head?, isWordPart c = false := fun c head =>
        Bool.eq_false_iff.mpr fun part => ends c head (by rwa [Lexeme.Absorbs, if_pos keyword])
      rw [lexeme_word start, ← List.cons_append, ← same, takeWhile_before parts noPart,
        dropWhile_before parts noPart, spelled]
    · have listed := (Symbol.mem_keywords_or_marks fixed).resolve_left keyword
      obtain ⟨first, more, same, noBlank, noHash, read⟩ := lexeme_mark listed
      refine ⟨first, more, same, noBlank, noHash, fun rest ends => read rest fun c head => ?_⟩
      have apart := ends c head
      rwa [Lexeme.Absorbs, if_neg keyword] at apart
  | integer digits =>
    obtain ⟨c, more, rfl⟩ := List.exists_cons_of_ne_nil proper.1
    have digit := proper.2 c List.mem_cons_self
    obtain ⟨noBlank, noHash, _⟩ := begins_of_class digit rfl
    refine ⟨c, more, rfl, noBlank, noHash, fun rest ends => ?_⟩
    rw [lexeme_number digit]
    exact number_integer proper ends
  | decimal whole fraction =>
    obtain ⟨c, more, rfl⟩ := List.exists_cons_of_ne_nil proper.1.1
    have digit := proper.1.2 c List.mem_cons_self
    obtain ⟨noBlank, noHash, _⟩ := begins_of_class digit rfl
    refine ⟨c, more ++ '.' :: fraction, rfl, noBlank, noHash, fun rest ends => ?_⟩
    have read := number_decimal proper.1 proper.2 ends
    rw [lexeme_number digit, List.append_assoc]
    exact read
  | quoted body =>
    refine ⟨'"', body ++ ['"'], rfl, rfl, by decide, fun rest ends => ?_⟩
    have closes := closingQuote_of_proper proper [] rest
    rw [lexeme, if_pos rfl, List.append_assoc, List.singleton_append, closes]
    rfl
  | identifier name =>
    obtain ⟨⟨c, head, start⟩, parts, free⟩ := proper
    obtain ⟨more, same⟩ := List.head?_eq_some_iff.mp head
    obtain ⟨noBlank, noHash, _⟩ := begins_of_class start rfl
    refine ⟨c, more, same, noBlank, noHash, fun rest ends => ?_⟩
    have noPart : ∀ c ∈ rest.head?, isWordPart c = false := fun c head =>
      Bool.eq_false_iff.mpr (ends c head)
    rw [lexeme_word start, ← List.cons_append, ← same, takeWhile_before parts noPart,
      dropWhile_before parts noPart, word_of_not_keyword free]
  | invalid text => cases proper
  | endOfInput => cases proper

/-- The characters that end every lexeme before them. -/
def breaks : List Char := [' ', '\t', '\r', '\n', '#', '(', ')']

theorem not_absorbs_break {c : Char} (ends : c ∈ breaks) (lex : Lexeme) : ¬ lex.Absorbs c := by
  have all : ¬ isWordPart c = true ∧ ¬ c.isDigit = true ∧ c ≠ '.' ∧ c ∉ ['=', '>', '+'] := by
    simp only [breaks, List.mem_cons, List.not_mem_nil, or_false] at ends
    rcases ends with rfl | rfl | rfl | rfl | rfl | rfl | rfl <;> decide
  obtain ⟨noPart, noDigit, noPoint, noMark⟩ := all
  cases lex with
  | symbol fixed =>
    have listed : fixed.extensions ⊆ ['=', '>', '+'] := by
      cases fixed with
      | binary op => cases op <;> decide
      | _ => decide
    rw [Lexeme.Absorbs]
    split
    · exact noPart
    · exact fun member => noMark (listed member)
  | integer digits => exact not_or.mpr ⟨noDigit, noPoint⟩
  | decimal => exact noDigit
  | identifier => exact noPart
  | _ => exact id

theorem tokensFrom_end {offset start : Nat} {text : List Char}
    (found : skip false offset text = (start, [])) (before : List Token) :
    tokensFrom before offset text = before.reverse := by
  rw [tokensFrom]
  split
  · rfl
  · rename_i other
    rw [found] at other
    cases other

theorem tokensFrom_step {offset start : Nat} {text rest : List Char} {first : Char}
    (found : skip false offset text = (start, first :: rest)) (before : List Token) :
    tokensFrom before offset text =
      tokensFrom (⟨(lexeme first rest).1, start⟩ :: before)
        (start + Text.size (lexeme first rest).1.text) (lexeme first rest).2 := by
  rw [tokensFrom]
  split
  · rename_i other
    rw [found] at other
    cases other
  · rename_i other
    rw [found] at other
    cases other
    rfl

private theorem tokensFrom_append (before other : List Token) (offset : Nat) (text : List Char) :
    tokensFrom before offset text = before.reverse ++ tokensFrom [] offset text := by
  fun_induction tokensFrom other offset text generalizing before with
  | case1 other offset text start found =>
    rw [tokensFrom_end found, tokensFrom_end found]
    simp
  | case2 other offset text start first rest found token ih =>
    rw [tokensFrom_step found before, tokensFrom_step found []]
    change tokensFrom (token :: before) token.stop _ =
      before.reverse ++ tokensFrom [token] token.stop _
    rw [ih (token :: before), ih [token]]
    simp

/-- The text holds the first token behind blanks and comments, and then the others. -/
theorem tokensFrom_cons {offset start : Nat} {text rest : List Char} {first : Char}
    (found : skip false offset text = (start, first :: rest)) :
    tokensFrom [] offset text =
      ⟨(lexeme first rest).1, start⟩ ::
        tokensFrom [] (start + Text.size (lexeme first rest).1.text) (lexeme first rest).2 := by
  rw [tokensFrom_step found, tokensFrom_append _ []]
  rfl

private theorem tokensFrom_cases {motive : Nat → List Char → List Token → Prop}
    (ending : ∀ {offset start text}, skip false offset text = (start, []) → motive offset text [])
    (step : ∀ {offset start text first rest}, skip false offset text = (start, first :: rest) →
      motive (start + Text.size (lexeme first rest).1.text) (lexeme first rest).2
        (tokensFrom [] (start + Text.size (lexeme first rest).1.text) (lexeme first rest).2) →
      motive offset text (⟨(lexeme first rest).1, start⟩ ::
        tokensFrom [] (start + Text.size (lexeme first rest).1.text) (lexeme first rest).2))
    (other : List Token) (offset : Nat) (text : List Char) :
    motive offset text (tokensFrom [] offset text) := by
  fun_induction tokensFrom other offset text with
  | case1 other offset text start found =>
    rw [tokensFrom_end found]
    exact ending found
  | case2 other offset text start first rest found token ih =>
    rw [tokensFrom_cons found]
    exact step found ih

/-- Induction along the tokens of a text. -/
theorem tokensFrom_induction {motive : Nat → List Char → List Token → Prop}
    (offset : Nat) (text : List Char)
    (ending : ∀ {offset start text}, skip false offset text = (start, []) → motive offset text [])
    (step : ∀ {offset start text first rest}, skip false offset text = (start, first :: rest) →
      motive (start + Text.size (lexeme first rest).1.text) (lexeme first rest).2
        (tokensFrom [] (start + Text.size (lexeme first rest).1.text) (lexeme first rest).2) →
      motive offset text (⟨(lexeme first rest).1, start⟩ ::
        tokensFrom [] (start + Text.size (lexeme first rest).1.text) (lexeme first rest).2)) :
    motive offset text (tokensFrom [] offset text) :=
  tokensFrom_cases ending step [] offset text

/-- Every token of a source is proper, or invalid. -/
theorem tokens_proper (source : List Char) :
    ∀ token ∈ tokens source, token.lexeme.Proper ∨ ∃ text, token.lexeme = .invalid text := by
  apply tokensFrom_induction (motive := fun _ _ tokens =>
    ∀ token ∈ tokens, token.lexeme.Proper ∨ ∃ text, token.lexeme = .invalid text) 0 source
  · intro offset start text found token member
    cases member
  · intro offset start text first rest found ih token member
    rcases List.mem_cons.mp member with rfl | later
    · exact lexeme_proper first rest
    · exact ih token later

theorem isStringBody_of_mem {source body : List Char} {start : Nat}
    (member : (⟨.quoted body, start⟩ : Token) ∈ tokens source) : isStringBody body = true := by
  rcases tokens_proper source _ member with proper | ⟨text, invalid⟩
  · exact proper
  · cases invalid

theorem kind_ne_endOfInput {lex : Lexeme} (read : lex.Proper ∨ ∃ text, lex = .invalid text) :
    lex.kind ≠ .endOfInput := by
  rcases read with proper | ⟨text, rfl⟩
  · cases lex with
    | endOfInput => exact absurd proper id
    | _ => nofun
  · nofun

theorem lexeme_ne_endOfInput {source : List Char} {token : Token}
    (member : token ∈ tokens source) : token.lexeme ≠ .endOfInput := fun last =>
  kind_ne_endOfInput (tokens_proper source token member) (congrArg Lexeme.kind last)

/-- The lexemes in writing, each between blanks. -/
def spaced : List Lexeme → List Char
  | [] => [' ']
  | lex :: rest => ' ' :: (lex.text ++ spaced rest)

private theorem exists_spaced_eq_cons (lexemes : List Lexeme) :
    ∃ rest, spaced lexemes = ' ' :: rest := by
  cases lexemes <;> exact ⟨_, rfl⟩

private theorem skip_blank (offset : Nat) (text : List Char) :
    skip false offset (' ' :: text) = skip false (offset + 1) text := rfl

theorem skip_begin {first : Char} (noBlank : isBlank first = false) (noHash : first ≠ '#')
    (offset : Nat) (rest : List Char) :
    skip false offset (first :: rest) = (offset, first :: rest) := by
  simp [skip, noBlank, noHash]

private theorem tokensFrom_spaced {lexemes : List Lexeme}
    (proper : ∀ lex ∈ lexemes, lex.Proper) (offset : Nat) :
    (tokensFrom [] offset (spaced lexemes)).map Token.lexeme = lexemes := by
  induction lexemes generalizing offset with
  | nil =>
    rw [spaced, tokensFrom_end (skip_blank offset [])]
    rfl
  | cons lex lexemes ih =>
    obtain ⟨first, more, same, noBlank, noHash, read⟩ :=
      lexeme_of_proper (proper lex List.mem_cons_self)
    obtain ⟨rest, blank⟩ := exists_spaced_eq_cons lexemes
    have found : skip false offset (spaced (lex :: lexemes)) =
        (offset + 1, first :: (more ++ ' ' :: rest)) := by
      rw [spaced, skip_blank, same, blank, List.cons_append]
      exact skip_begin noBlank noHash _ _
    have others := ih (fun other member => proper other (List.mem_cons_of_mem _ member))
    have ends : ∀ c ∈ (' ' :: rest).head?, ¬ lex.Absorbs c := by
      rintro c ⟨⟩
      exact not_absorbs_break (by decide) lex
    rw [tokensFrom_cons found, read _ ends, List.map_cons, ← blank, others]

/-- A lexeme that a source can hold, alone in it, is the only token. -/
theorem tokens_text {lex : Lexeme} (proper : lex.Proper) : tokens lex.text = [⟨lex, 0⟩] := by
  obtain ⟨first, more, same, noBlank, noHash, read⟩ := lexeme_of_proper proper
  have whole := read [] (by rintro c ⟨⟩)
  rw [List.append_nil] at whole
  rw [same, tokens, tokensFrom_cons (skip_begin noBlank noHash 0 more), whole, tokensFrom_end rfl]
  rfl

/-- Proper lexemes are read back from their spaced writing. -/
theorem tokens_spaced {lexemes : List Lexeme} (proper : ∀ lex ∈ lexemes, lex.Proper) :
    (tokens (spaced lexemes)).map Token.lexeme = lexemes :=
  tokensFrom_spaced proper 0

end Lexer

end ClamSyntax
