import ClamSyntax.Diagnostic
import ClamSyntax.Proofs.Literal.StringUnit
import ClamSyntax.Proofs.Session.Consumption
import ClamSyntax.Proofs.Session.Expectation

namespace ClamSyntax

/-- What the error says stands in the source where the error says it does. -/
def SyntaxError.Grounded (source : List Char) : SyntaxError → Prop
  | .unexpected _ found place =>
    ∃ token ∈ Lexer.tokensToEnd source, token.kind = found ∧ token.span = place
  | .invalidEscape quoted place escape =>
    (∃ token ∈ Lexer.tokens source, token.kind = .quoted ∧ token.span = quoted) ∧
      place.Marks source ['\\', escape] ∧ quoted.start < place.start ∧ place.stop < quoted.stop

theorem Token.marks_inside {source front part back : List Char} {start : Nat} (some : part ≠ [])
    (marks : (⟨.quoted (front ++ part ++ back), start⟩ : Token).span.Marks source
      (Lexeme.quoted (front ++ part ++ back)).text) :
    let place : Span :=
      ⟨start + 1 + Text.size front, start + 1 + Text.size front + Text.size part⟩
    place.Marks source part ∧ start < place.start ∧
      place.stop < (⟨.quoted (front ++ part ++ back), start⟩ : Token).stop := by
  intro place
  obtain ⟨-, before, after, split, range⟩ := marks
  have width : ('"' : Char).utf8Size = 1 := rfl
  have behind : start = Text.size before := congrArg Span.start range
  refine ⟨⟨some, before ++ '"' :: front, back ++ '"' :: after, ?_, ?_⟩, ?_, ?_⟩
  · rw [split, Lexeme.text]
    simp only [List.append_assoc, List.cons_append, List.nil_append]
  · simp only [place, Text.size_append, Text.size_cons, width, behind, Nat.add_assoc]
  · simp only [place]
    omega
  · simp only [place, Token.stop, Token.text, Lexeme.text, Text.size_append, Text.size_cons, width]
    omega

namespace Parser.Failure

/-- The error of a bad escape in the token at which reading stopped. -/
theorem error_of_badEscape {failure : Failure} {fault : Literal.BadEscape} {token : Token}
    (reason : failure.reason = .badEscape fault) (first : failure.rest.head? = some token)
    (size : Nat) :
    failure.error size = .invalidEscape token.span
      ⟨token.start + 1 + fault.offset,
        token.start + 1 + fault.offset + Text.size ['\\', fault.escape]⟩ fault.escape := by
  have width : Text.size ['\\', fault.escape] = 1 + fault.escape.utf8Size := rfl
  rw [error, reason, found, first, width, ← Nat.add_assoc]
  rfl

/-- A token that was not expected is one of the source, and so is the string of a bad escape,
which holds the escape between its quotes. -/
theorem error_grounded {source : List Char} {failure : Failure}
    (ahead : failure.rest <:+ Lexer.tokens source) (explained : failure.stop.Explained) :
    (failure.error (Text.size source)).Grounded source := by
  cases reason : failure.reason with
  | expected what =>
    obtain ⟨taken, split⟩ := ahead
    rw [error, reason]
    exact ⟨_, List.mem_of_getElem? (found_at split.symm), rfl, rfl⟩
  | badEscape fault =>
    obtain ⟨body, start, first, bad⟩ := explained fault reason
    have member := ahead.subset (List.mem_of_head? first)
    have proper := Lexer.isStringBody_of_mem member
    have marks := (Lexer.tokensFrom_tiles 0 source).marks _ member
    obtain ⟨front, back, rfl, offset⟩ := StringUnit.exists_of_bad_escape proper bad
    rw [error_of_badEscape reason first, offset]
    exact ⟨⟨_, member, rfl, rfl⟩, Token.marks_inside (List.cons_ne_nil _ _) marks⟩

end Parser.Failure

private theorem SyntaxError.Grounded.exists_cuts {source : List Char} {error : SyntaxError}
    (grounded : error.Grounded source) :
    ∃ before part after, source = before ++ part ++ after ∧
      error.span = ⟨Text.size before, Text.size before + Text.size part⟩ := by
  cases error with
  | invalidEscape quoted place escape =>
    obtain ⟨-, ⟨-, before, after, cuts⟩, -⟩ := grounded
    exact ⟨before, _, after, cuts⟩
  | unexpected expected found place =>
    obtain ⟨token, member, -, rfl⟩ := grounded
    rcases List.mem_append.mp member with inside | last
    · obtain ⟨-, before, after, cuts⟩ := (Lexer.tokensFrom_tiles 0 source).marks token inside
      exact ⟨before, _, after, cuts⟩
    · cases List.mem_singleton.mp last
      exact ⟨source, [], [], by simp, rfl⟩

/-- The escape that a message quotes is the one that the error has stored. -/
theorem SyntaxError.Grounded.message_eq {source : List Char} {error : SyntaxError}
    (grounded : error.Grounded source) : Diagnostic.message source error = error.message := by
  cases error with
  | unexpected => rfl
  | invalidEscape quoted place escape =>
    obtain ⟨-, marks, -⟩ := grounded
    have quote : String.ofList ['\\', escape] = "\\" ++ String.singleton escape := by
      apply String.toList_injective
      simp
    rw [Diagnostic.message, marks.slice, Option.getD_some, quote, message]

namespace Session

/-- An error after any calls on a source is that of a failure in its tokens. -/
theorem exists_failure {source : List Char} {calls : List Call} {call : Call} {error : SyntaxError}
    (fails : (((ofSource source).after calls).answer call).result = .error error) :
    ∃ failure : Parser.Failure, failure.rest <:+ Lexer.tokens source ∧ failure.stop.Explained ∧
      error = failure.error (Text.size source) := by
  have splits := ((ofSource source).after calls).reading_splits call
  have ahead := (ofSource source).after_rest_suffix calls
  have size := (ofSource source).after_size calls
  rw [answer_eq] at fails
  cases read : ((ofSource source).after calls).reading call with
  | ok found =>
    rw [read] at fails
    cases fails
  | error failure =>
    rw [read] at fails splits
    cases fails
    refine ⟨failure, .trans ⟨failure.taken, splits.symm⟩ ahead, reading_explained read, ?_⟩
    rw [size]
    rfl

end Session

/-- Whatever is read of a source, if it fails then the message of the error that quotes the source
is the one that the error writes by itself, the range of the error runs from one character of the
source to another, and a token that was not expected is one of the source, with that range. -/
theorem message_of_error {source : List Char} {calls : List Session.Call} {call : Session.Call}
    {error : SyntaxError}
    (fails : (((Session.ofSource source).after calls).answer call).result = .error error) :
    Diagnostic.message source error = error.message ∧
      (∃ before part after, source = before ++ part ++ after ∧
        error.span = ⟨Text.size before, Text.size before + Text.size part⟩) ∧
      ∀ expected found place, error = .unexpected expected found place →
        ∃ token ∈ Lexer.tokensToEnd source, token.kind = found ∧ token.span = error.span := by
  obtain ⟨failure, ahead, explained, rfl⟩ := Session.exists_failure fails
  have grounded := Parser.Failure.error_grounded ahead explained
  refine ⟨grounded.message_eq, grounded.exists_cuts, fun expected found place same => ?_⟩
  rw [same] at grounded ⊢
  exact grounded

/-- The escape of a letter of two bytes, behind another such letter in a list that the second call
reads. -/
theorem message_of_wide_escape :
    let source := "f \x7b\"é\\n\\ü\"\x7d".toList
    let error : SyntaxError := .invalidEscape ⟨3, 12⟩ ⟨8, 11⟩ 'ü'
    Diagnostic.message source error = error.message ∧
      ∃ before part after, source = before ++ part ++ after ∧
        error.span = ⟨Text.size before, Text.size before + Text.size part⟩ := by
  have fails : (((Session.ofSource "f \x7b\"é\\n\\ü\"\x7d".toList).after [.term]).answer
      (.expression 0)).result = .error (.invalidEscape ⟨3, 12⟩ ⟨8, 11⟩ 'ü') := by cbv
  obtain ⟨same, cuts, -⟩ := message_of_error fails
  exact ⟨same, cuts⟩

end ClamSyntax
