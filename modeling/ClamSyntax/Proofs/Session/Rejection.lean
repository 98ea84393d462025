import ClamSyntax.Proofs.Session.Parse
import ClamSyntax.Proofs.Token.Spelling

namespace ClamSyntax

/-- What can be seen of a lexeme. -/
def Lexeme.word (lexeme : Lexeme) : TokenKind × List Char := (lexeme.kind, lexeme.text)

/-- The kinds and texts of the tokens of a source, the end included. -/
def Lexer.words (source : List Char) : List (TokenKind × List Char) :=
  (tokensToEnd source).map fun token => (token.kind, token.text)

/-- The token is the one at which the error points. -/
def SyntaxError.Blames (token : Token) : SyntaxError → Prop
  | .invalidEscape quoted _ _ => token.kind = .quoted ∧ token.span = quoted
  | .unexpected _ found place => token.kind = found ∧ token.span = place

/-- The source is an expression. -/
def Accepted (source : List Char) : Prop := ∃ result, parse source = .ok result

theorem accepted_iff {source : List Char} :
    Accepted source ↔ ∃ phrase : Phrase, phrase.Grammatical ∧
      phrase.tokens.map Token.lexeme = (Lexer.tokens source).map Token.lexeme := by
  constructor
  · rintro ⟨result, accepted⟩
    obtain ⟨phrase, spelled, grammatical, -⟩ := parse_eq_ok_iff.mp accepted
    exact ⟨phrase, grammatical, by rw [spelled]⟩
  · rintro ⟨phrase, grammatical, spelled⟩
    obtain ⟨other, same, alike⟩ := phrase.exists_alike _ spelled.symm
    exact ⟨_, parse_eq_ok_iff.mpr ⟨other, same, alike.grammatical grammatical, rfl⟩⟩

namespace Lexeme

/-- A lexeme that some token of a source has. -/
def Read (lexeme : Lexeme) : Prop :=
  lexeme.Proper ∨ (∃ text, lexeme = .invalid text) ∨ lexeme = .endOfInput

private theorem whole_eq_of_numerals {whole other fraction rest : List Char}
    (first : Lexer.IsNumeral whole) (second : Lexer.IsNumeral other)
    (same : whole ++ '.' :: fraction = other ++ '.' :: rest) : whole = other := by
  have point (digits : List Char) : ∀ c ∈ ('.' :: digits).head?, c.isDigit = false := by
    rintro c ⟨⟩
    rfl
  have taken := congrArg (List.takeWhile Char.isDigit) same
  rwa [Lexer.takeWhile_before first.2 (point _), Lexer.takeWhile_before second.2 (point _)] at taken

private theorem Read.isNumeral {whole fraction : List Char} (read : (decimal whole fraction).Read) :
    Lexer.IsNumeral whole := by
  rcases read with proper | ⟨text, invalid⟩ | last
  · exact proper.1
  · cases invalid
  · cases last

private theorem Read.eq_of_word {first second : Lexeme} (read : first.Read)
    (readOther : second.Read)
    (same : first.word = second.word) : first = second := by
  obtain ⟨kind, text⟩ := Prod.mk.inj same
  cases first with
  | symbol fixed =>
    cases second with
    | symbol other => cases kind; rfl
    | _ => cases kind
  | integer digits =>
    cases second with
    | integer other => exact congrArg integer text
    | _ => cases kind
  | decimal whole fraction =>
    cases second with
    | decimal other rest =>
      cases whole_eq_of_numerals read.isNumeral readOther.isNumeral text
      cases List.append_cancel_left text
      rfl
    | _ => cases kind
  | quoted body =>
    cases second with
    | quoted other =>
      cases List.append_cancel_right (List.cons.inj text).2
      rfl
    | _ => cases kind
  | identifier name =>
    cases second with
    | identifier other => exact congrArg identifier (String.toList_inj.mp text)
    | _ => cases kind
  | invalid body =>
    cases second with
    | invalid other => exact congrArg invalid text
    | _ => cases kind
  | endOfInput =>
    cases second with
    | endOfInput => rfl
    | _ => cases kind

theorem map_word_injective {first second : List Lexeme} (read : ∀ lexeme ∈ first, lexeme.Read)
    (readOther : ∀ lexeme ∈ second, lexeme.Read) (same : first.map word = second.map word) :
    first = second := by
  induction first generalizing second with
  | nil => exact (List.map_eq_nil_iff.mp same.symm).symm
  | cons lexeme first ih =>
    obtain ⟨other, rest, rfl, sameHead, sameRest⟩ := List.map_eq_cons_iff.mp same.symm
    obtain ⟨readHead, readRest⟩ := List.forall_mem_cons.mp read
    obtain ⟨readOtherHead, readOtherRest⟩ := List.forall_mem_cons.mp readOther
    rw [readHead.eq_of_word readOtherHead sameHead.symm, ih readRest readOtherRest sameRest.symm]

private theorem prefix_of_words {first second : List Lexeme} (read : ∀ lexeme ∈ first, lexeme.Read)
    (readOther : ∀ lexeme ∈ second, lexeme.Read) (begins : first.map word <+: second.map word) :
    first <+: second := by
  rw [List.prefix_iff_eq_take, ← List.map_take] at begins
  have same := map_word_injective read
    (fun lexeme member => readOther lexeme (List.mem_of_mem_take member)) begins
  rw [same]
  exact List.take_prefix ..

end Lexeme

/-- The lexemes of a source, the end included. -/
def Lexer.lexemes (source : List Char) : List Lexeme :=
  (tokens source).map Token.lexeme ++ [.endOfInput]

theorem Lexer.words_eq (source : List Char) : words source = (lexemes source).map Lexeme.word := by
  rw [words, tokensToEnd, lexemes, List.map_append, List.map_append, List.map_map]
  rfl

theorem Lexer.lexemes_read (source : List Char) : ∀ lexeme ∈ lexemes source, lexeme.Read := by
  intro lexeme member
  rcases List.mem_append.mp member with inside | last
  · obtain ⟨token, found, rfl⟩ := List.mem_map.mp inside
    exact (tokens_proper source token found).imp_right .inl
  · exact .inr (.inr (List.mem_singleton.mp last))

namespace Parser

/-- The error of a failure points at the first token that was not read. -/
theorem Failure.error_blames (failure : Failure) (size : Nat)
    (explained : failure.stop.Explained) :
    (failure.error size).Blames (failure.found size) := by
  rw [error]
  cases reason : failure.reason with
  | expected what => exact ⟨rfl, rfl⟩
  | badEscape fault =>
    obtain ⟨body, start, head, -⟩ := explained fault reason
    refine ⟨?_, rfl⟩
    rw [found, show failure.rest.head? = _ from head]
    rfl

/-- Behind tokens of an accepted source the parser does not stop. -/
theorem stop_unless_begins {taken rest : List Token} {reason : Reason} {other : List Char}
    (again : ∀ later, later.head? = rest.head? →
      readProgram (taken ++ later) = .error ⟨reason, later⟩)
    (accepted : Accepted other) (inside : ∀ token ∈ rest, token.lexeme ≠ .endOfInput) :
    ¬ taken.map Token.lexeme ++ [(rest.head?.map Token.lexeme).getD .endOfInput] <+:
      Lexer.lexemes other := by
  intro begins
  obtain ⟨phrase, grammatical, spelled⟩ := accepted_iff.mp accepted
  have refuses (later : List Token) (head : later.head? = rest.head?) :
      (taken ++ later).map Token.lexeme ≠ (Lexer.tokens other).map Token.lexeme := by
    intro same
    obtain ⟨whole, tokens, alike⟩ := phrase.exists_alike _ (same.trans spelled.symm)
    have read := readProgram_tokens (alike.grammatical grammatical)
    rw [tokens, again later head] at read
    cases read
  cases rest with
  | nil =>
    rcases List.prefix_concat_iff.mp begins with whole | within
    · apply refuses [] rfl
      rw [List.append_nil]
      exact List.append_cancel_right whole
    · have last : Lexeme.endOfInput ∈ (Lexer.tokens other).map Token.lexeme :=
        within.subset (List.mem_append_right _ List.mem_cons_self)
      obtain ⟨token, member, same⟩ := List.mem_map.mp last
      exact Lexer.lexeme_ne_endOfInput member same
  | cons token rest =>
    rcases List.prefix_concat_iff.mp begins with whole | within
    · have last := (List.append_inj' whole rfl).2
      exact inside token List.mem_cons_self (List.cons.inj last).1
    · obtain ⟨later, same⟩ := within
      apply refuses (token :: later.map fun lexeme => ⟨lexeme, 0⟩) rfl
      rw [← same]
      simp [Function.comp_def]

end Parser

/-- Tokens of a source that go on with proper ones to a grammatical phrase are, with these, the
tokens of an accepted source. -/
theorem exists_accepted_spelling {source : List Char} {taken more : List Token}
    {phrase : Phrase} (member : ∀ token ∈ taken, token ∈ Lexer.tokens source)
    (grammatical : phrase.Grammatical) (spelled : phrase.tokens = taken ++ more)
    (proper : ∀ token ∈ more, token.lexeme.Proper) :
    ∃ other, Accepted other ∧
      Lexer.lexemes other = taken.map Token.lexeme ++ more.map Token.lexeme ++ [.endOfInput] := by
  have properTaken : ∀ token ∈ taken, token.lexeme.Proper := by
    intro token inside
    have valid := phrase.kind_ne_invalid grammatical token
    rw [spelled] at valid
    rcases Lexer.tokens_proper source token (member token inside) with proper | ⟨text, invalid⟩
    · exact proper
    · exact absurd (congrArg Lexeme.kind invalid) (valid (List.mem_append_left _ inside))
  have properAll : ∀ lexeme ∈ phrase.tokens.map Token.lexeme, lexeme.Proper := by
    rw [spelled]
    exact List.forall_mem_map.mpr (List.forall_mem_append.mpr ⟨properTaken, proper⟩)
  have written := Lexer.tokens_spaced properAll
  refine ⟨_, accepted_iff.mpr ⟨phrase, grammatical, written.symm⟩, ?_⟩
  rw [Lexer.lexemes, written, spelled, List.map_append]

private theorem exists_accepted_beginning {source : List Char} {taken more : List Token}
    {phrase : Phrase} (member : ∀ token ∈ taken, token ∈ Lexer.tokens source)
    (grammatical : phrase.Grammatical) (spelled : phrase.tokens = taken ++ more)
    (proper : ∀ token ∈ more, token.lexeme.Proper) :
    ∃ other, Accepted other ∧ taken.map Token.lexeme <+: Lexer.lexemes other := by
  obtain ⟨other, accepted, lexemes⟩ := exists_accepted_spelling member grammatical spelled proper
  refine ⟨other, accepted, ?_⟩
  rw [lexemes, List.append_assoc]
  exact List.prefix_append ..

/-- The error points at the earliest offence: some accepted source has the tokens before
it, but none has the offending token behind them. -/
theorem rejected_at_earliest {source : List Char} {error : SyntaxError}
    (rejected : parse source = .error error) :
    ∃ place token, (Lexer.tokensToEnd source)[place]? = some token ∧ error.Blames token ∧
      (∃ other, Accepted other ∧ (Lexer.words source).take place <+: Lexer.words other) ∧
      ∀ other, Accepted other → ¬ (Lexer.words source).take (place + 1) <+: Lexer.words other := by
  obtain ⟨failure, read, rfl⟩ := parse_eq_error_iff.mp rejected
  have stopped : Parser.readProgram (Lexer.tokens source) = .error failure.stop := by
    rw [Parser.readProgram, read]
    rfl
  obtain ⟨taken, split, ⟨phrase, more, spelled, grammatical, proper⟩, explained, again⟩ :=
    Parser.readProgram_stopped stopped
  change Lexer.tokens source = taken ++ failure.rest at split
  have whole : Lexer.lexemes source =
      taken.map Token.lexeme ++ (failure.rest.map Token.lexeme ++ [.endOfInput]) := by
    rw [Lexer.lexemes, split, List.map_append, List.append_assoc]
  have before : (Lexer.lexemes source).take taken.length = taken.map Token.lexeme := by
    rw [whole, ← List.length_map Token.lexeme, List.take_left]
  have through : (Lexer.lexemes source).take (taken.length + 1) =
      taken.map Token.lexeme ++ [(failure.rest.head?.map Token.lexeme).getD .endOfInput] := by
    rw [whole, ← List.length_map Token.lexeme, List.take_length_add_append]
    cases failure.rest <;> rfl
  refine ⟨taken.length, failure.found (Text.size source), ?_,
    failure.error_blames _ explained, ?_, ?_⟩
  · rw [Lexer.tokensToEnd, split, Parser.Failure.found]
    cases failure.rest <;> simp
  · have member (token : Token) (inside : token ∈ taken) : token ∈ Lexer.tokens source := by
      rw [split]
      exact List.mem_append_left _ inside
    obtain ⟨other, accepted, begins⟩ :=
      exists_accepted_beginning member grammatical spelled proper
    refine ⟨other, accepted, ?_⟩
    rw [Lexer.words_eq, Lexer.words_eq, ← List.map_take, before]
    exact begins.map Lexeme.word
  · intro other accepted begins
    rw [Lexer.words_eq, Lexer.words_eq, ← List.map_take] at begins
    have lexemes := Lexeme.prefix_of_words
      (fun lexeme member => Lexer.lexemes_read source lexeme (List.mem_of_mem_take member))
      (Lexer.lexemes_read other) begins
    rw [through] at lexemes
    refine Parser.stop_unless_begins again accepted (fun token inside => ?_) lexemes
    have member : token ∈ Lexer.tokens source := by
      rw [split]
      exact List.mem_append_right _ inside
    exact Lexer.lexeme_ne_endOfInput member

/-- An open list is rejected at the end of the source. -/
theorem open_list_rejected :
    ∃ place token, (Lexer.tokensToEnd "\x7ba, b".toList)[place]? = some token ∧
      (SyntaxError.unexpected .itemSeparator .endOfInput ⟨5, 5⟩).Blames token ∧
      (∃ other, Accepted other ∧
        (Lexer.words "\x7ba, b".toList).take place <+: Lexer.words other) ∧
      ∀ other, Accepted other →
        ¬ (Lexer.words "\x7ba, b".toList).take (place + 1) <+: Lexer.words other :=
  rejected_at_earliest (by cbv)

end ClamSyntax
