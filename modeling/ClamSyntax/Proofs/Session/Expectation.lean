import ClamSyntax.Proofs.Parser.Expectation
import ClamSyntax.Proofs.Session.Rejection

namespace ClamSyntax

private theorem Lexer.words_take {source : List Char} {taken rest : List Token}
    (split : tokens source = taken ++ rest) :
    (words source).take taken.length = (taken.map Token.lexeme).map Lexeme.word := by
  rw [words_eq, lexemes, split, ← List.map_take, List.map_append, List.append_assoc,
    ← List.length_map Token.lexeme, List.take_left]

theorem Parser.Failure.found_at {failure : Failure} {source : List Char} {taken : List Token}
    (split : Lexer.tokens source = taken ++ failure.rest) :
    (Lexer.tokensToEnd source)[taken.length]? = some (failure.found (Text.size source)) := by
  rw [Lexer.tokensToEnd, split, found]
  cases failure.rest <;> simp

theorem Parser.Failure.expected_of_error {failure : Failure} {size : Nat} {expected : Expectation}
    {found : TokenKind} {span : Span}
    (same : failure.error size = .unexpected expected found span) :
    failure.reason = .expected expected ∧ (failure.found size).kind = found ∧
      (failure.found size).span = span := by
  rw [error] at same
  cases reason : failure.reason with
  | badEscape fault =>
    rw [reason] at same
    cases same
  | expected what =>
    rw [reason] at same
    cases same
    exact ⟨rfl, rfl, rfl⟩

/-- Wherever a source is rejected because of an unexpected token, what the error says was expected
could have stood there. If it is the end of the source, then the tokens before the offending one
are all those of an accepted source. If not, then something is on offer, and whatever is on offer
follows the tokens before the offending one in some accepted source. -/
theorem expectation_met {source : List Char} {expected : Expectation} {found : TokenKind}
    {span : Span} (rejected : parse source = .error (.unexpected expected found span)) :
    ∃ place token, (Lexer.tokensToEnd source)[place]? = some token ∧
      token.kind = found ∧ token.span = span ∧
      (expected = .endOfInput → ∃ other, Accepted other ∧
        Lexer.words other = (Lexer.words source).take place ++ [Lexeme.endOfInput.word]) ∧
      (expected ≠ .endOfInput → ∃ lexeme : Lexeme, lexeme.Proper ∧ expected.Offers lexeme) ∧
      ∀ lexeme : Lexeme, lexeme.Proper → expected.Offers lexeme → ∃ other, Accepted other ∧
        (Lexer.words source).take place ++ [lexeme.word] <+: Lexer.words other := by
  obtain ⟨failure, read, same⟩ := parse_eq_error_iff.mp rejected
  obtain ⟨reason, rfl, rfl⟩ := failure.expected_of_error same.symm
  have stopped : Parser.readProgram (Lexer.tokens source) =
      .error ⟨.expected expected, failure.rest⟩ := by
    rw [Parser.readProgram, read, ← reason]
    rfl
  obtain ⟨taken, split, met⟩ := Parser.readProgram_truthful stopped
  have member (token : Token) (inside : token ∈ taken) : token ∈ Lexer.tokens source := by
    rw [split]
    exact List.mem_append_left _ inside
  refine ⟨taken.length, failure.found (Text.size source), Parser.Failure.found_at split, rfl, rfl,
    ?_⟩
  rw [Lexer.words_take split]
  rcases met with ⟨rfl, phrase, grammatical, spelled⟩ | ⟨offer, welcome⟩
  · refine ⟨fun _ => ?_, fun other => absurd rfl other, fun lexeme _ offered => offered.elim⟩
    obtain ⟨other, accepted, lexemes⟩ := exists_accepted_spelling member grammatical
      (spelled.trans (List.append_nil taken).symm) (List.forall_mem_nil _)
    refine ⟨other, accepted, ?_⟩
    rw [Lexer.words_eq, lexemes]
    simp
  · refine ⟨fun last => ?_, fun _ => offer, fun lexeme proper offered => ?_⟩
    · obtain ⟨lexeme, -, offered⟩ := offer
      rw [last] at offered
      exact offered.elim
    · obtain ⟨phrase, more, grammatical, spelled, properMore⟩ := welcome ⟨lexeme, 0⟩ offered
      rw [List.append_assoc] at spelled
      obtain ⟨other, accepted, lexemes⟩ := exists_accepted_spelling member grammatical spelled
        (List.forall_mem_cons.mpr ⟨proper, properMore⟩)
      refine ⟨other, accepted, ?_⟩
      rw [Lexer.words_eq, lexemes]
      simp

/-- An operator on offer may bind more loosely than the sign behind whose operand it is. -/
theorem loose_operator_met :
    ∃ place token, (Lexer.tokensToEnd "\x7b-a = b".toList)[place]? = some token ∧
      token.kind = .symbol .assign ∧ token.span = ⟨4, 5⟩ ∧
      ∃ other, Accepted other ∧
        (Lexer.words "\x7b-a = b".toList).take place ++ [(Lexeme.symbol (.binary .or)).word] <+:
          Lexer.words other := by
  have rejected : parse "\x7b-a = b".toList =
      .error (.unexpected .continuation (.symbol .assign) ⟨4, 5⟩) := by cbv
  obtain ⟨place, token, found, kind, span, -, -, met⟩ := expectation_met rejected
  exact ⟨place, token, found, kind, span, met (.symbol (.binary .or)) trivial ⟨.or, rfl⟩⟩

end ClamSyntax
