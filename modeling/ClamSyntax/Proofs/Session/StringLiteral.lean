import ClamSyntax.Proofs.Arena.Literals
import ClamSyntax.Proofs.Session.Message

namespace ClamSyntax

/-- A string of units is one token. -/
theorem Lexer.tokens_quoted {units : List StringUnit} {body : List Char}
    (spell : StringUnit.Spell units body) :
    tokens ('"' :: (body ++ ['"'])) = [⟨.quoted body, 0⟩] := by
  have proper : (Lexeme.quoted body).Proper := spell.isStringBody
  exact tokens_text proper

/-- Every text can be written as a string. However it is written, the source is accepted, and its
only node is the literal of the text over the whole source. -/
theorem written_string_parsed (value : String) :
    (∃ units body, StringUnit.Spell units body ∧ StringUnit.Denote units value.toList) ∧
      ∀ units body, StringUnit.Spell units body → StringUnit.Denote units value.toList →
        parse ('"' :: (body ++ ['"'])) =
          .ok (⟨#[⟨.literal (.str value), ⟨0, Text.size ('"' :: (body ++ ['"']))⟩⟩]⟩, 0) := by
  refine ⟨StringUnit.exists_spelling value.toList, fun units body spell denote => ?_⟩
  have grammatical : Literal.value? (.quoted body) = some (.ok (.str value)) := by
    rw [Literal.value?_of_unescape (spell.unescape denote), Except.map, String.ofList_toList]
  have whole : (⟨.quoted body, 0⟩ : Token).span = ⟨0, Text.size ('"' :: (body ++ ['"']))⟩ :=
    congrArg (Span.mk 0) (Nat.zero_add _)
  refine parse_eq_ok_iff.mpr ⟨.literal ⟨.quoted body, 0⟩ (.str value),
    (Lexer.tokens_quoted spell).symm, grammatical, ?_⟩
  rw [← whole]
  rfl

/-- A letter of two bytes, a hash, an escaped quote before an escaped backslash, and a newline in
both ways. -/
theorem escapes_parsed :
    parse "\"é\\\"\\\\#\n\\n\"".toList =
      .ok (⟨#[⟨.literal (.str "é\"\\#\n\n"), ⟨0, 12⟩⟩]⟩, 0) :=
  let units : List StringUnit :=
    [.plain 'é', .escape '"', .escape '\\', .plain '#', .plain '\n', .escape 'n']
  have spell : StringUnit.Spell units "é\\\"\\\\#\n\\n".toList := ⟨by decide, by decide⟩
  (written_string_parsed "é\"\\#\n\n").2 units _ spell (by decide)

/-- However the token comes to be read, it is the literal of the text: at the head of a session, and
inside what a call takes, where parentheses may widen the node. No call finds fault with it. -/
structure Token.ReadAs (source : List Char) (token : Token) (text : String) : Prop where
  alone : ∀ (session : Session) (rest : List Token), session.rest = token :: rest →
    (session.answer .term).result = .ok session.arena.size ∧
      (session.answer .term).session =
        ⟨rest, session.size, session.arena.push ⟨.literal (.str text), token.span⟩⟩
  taken : ∀ (calls : List Session.Call) (call : Session.Call) (root : Nat),
    let session := (Session.ofSource source).after calls
    let answer := session.answer call
    answer.result = .ok root → token ∈ session.rest → token ∉ answer.session.rest →
      ∃ index span, session.arena.size ≤ index ∧
        answer.session.arena.get? index = some ⟨.literal (.str text), span⟩ ∧
        span.start ≤ token.start ∧ token.stop ≤ span.stop
  faultless : ∀ (calls : List Session.Call) (call : Session.Call) (place : Span) (letter : Char),
    (((Session.ofSource source).after calls).answer call).result ≠
      .error (.invalidEscape token.span place letter)

/-- However the token comes to be read, it is refused because of the escape: at the head of a
session, where every call wants an operand, and inside, where no call that succeeds takes it. -/
structure Token.RefusedAt (source : List Char) (token : Token) (place : Span) (letter : Char) :
    Prop where
  alone : ∀ (session : Session) (rest : List Token) (call : Session.Call),
    session.rest = token :: rest →
      (session.answer call).result = .error (.invalidEscape token.span place letter)
  untaken : ∀ (calls : List Session.Call) (call : Session.Call) (root : Nat),
    let session := (Session.ofSource source).after calls
    let answer := session.answer call
    answer.result = .ok root → token ∈ session.rest → token ∈ answer.session.rest
  blamed : ∀ (calls : List Session.Call) (call : Session.Call) (other : Span) (escape : Char),
    (((Session.ofSource source).after calls).answer call).result =
      .error (.invalidEscape token.span other escape) → other = place ∧ escape = letter

namespace Session

private theorem exists_failure_of_badEscape {session : Session} {token : Token} {rest : List Token}
    {fault : Literal.BadEscape} (ahead : session.rest = token :: rest)
    (denotes : Literal.value? token.lexeme = some (.error fault)) (call : Call) :
    ∃ failure, session.reading call = .error failure ∧
      failure.stop = ⟨.badEscape fault, token :: rest⟩ := by
  have term : Parser.readTerm session.rest = .error ⟨.badEscape fault, token :: rest⟩ := by
    rw [ahead, Parser.readTerm_cons, Parser.afterOpening, Phrase.opening_of_value denotes]
  have expression (least : Nat) : Parser.readExpression least session.rest =
      .error ⟨.badEscape fault, token :: rest⟩ := by
    rw [Parser.readExpression_eq, term]
    rfl
  have program : Parser.readProgram session.rest = .error ⟨.badEscape fault, token :: rest⟩ := by
    rw [Parser.readProgram_eq, expression 0]
  have brief := session.reading_eq call
  have stopped : (session.reading call).mapError Parser.Failure.stop =
      .error ⟨.badEscape fault, token :: rest⟩ := by
    cases call with
    | term => exact brief.trans term
    | expression least => exact brief.trans (expression least)
    | program =>
      rw [brief, program]
      rfl
  cases read : session.reading call with
  | ok found =>
    rw [read] at stopped
    cases stopped
  | error failure =>
    rw [read] at stopped
    exact ⟨failure, rfl, Except.error.inj stopped⟩

/-- A literal that a call takes denotes a value, and a node of it is stored. -/
theorem literal_taken {source : List Char} {calls : List Call} {call : Call} {root : Nat}
    {token : Token} {result : Except Literal.BadEscape Value}
    (denotes : Literal.value? token.lexeme = some result) :
    let session := (ofSource source).after calls
    let answer := session.answer call
    answer.result = .ok root → token ∈ session.rest →
      token ∈ answer.session.rest ∨ ∃ index value span, result = .ok value ∧
        session.arena.size ≤ index ∧
        answer.session.arena.get? index = some ⟨.literal value, span⟩ ∧
        span.start ≤ token.start ∧ token.stop ≤ span.stop := by
  intro session answer succeeds inside
  have splits := session.reading_splits call
  have inOrder := after_rest_inOrder source calls
  have answered : answer = _ := session.answer_eq call
  cases read : session.reading call with
  | error failure =>
    rw [answered, read] at succeeds
    cases succeeds
  | ok found =>
    obtain ⟨phrase, rest⟩ := found
    rw [read] at answered splits
    change session.rest = phrase.tokens ++ rest at splits
    change InOrder session.rest at inOrder
    rw [splits] at inside inOrder
    rw [answered]
    refine (List.mem_append.mp inside).symm.imp_right fun taken => ?_
    -- The tokens left are those behind the phrase; all others have their nodes in it.
    have holds := Arena.append_holds session.arena (phrase.nodes session.arena.size none)
    obtain ⟨index, value, span, found⟩ := phrase.exists_literal_node denotes
      (reading_grammatical read) (inOrder.sublist (List.sublist_append_left ..)) holds taken
    refine ⟨index, value, span, ?_⟩
    simp only [accept, phrase.store_eq]
    exact found

/-- An error because of an escape in a string is one of the string's own escapes. -/
theorem unescape_of_error {source : List Char} {calls : List Call} {call : Call}
    {body : List Char} {start : Nat} {place : Span} {letter : Char}
    (member : (⟨.quoted body, start⟩ : Token) ∈ Lexer.tokens source)
    (fails : (((ofSource source).after calls).answer call).result =
      .error (.invalidEscape (⟨.quoted body, start⟩ : Token).span place letter)) :
    ∃ offset, Literal.unescape body = .error ⟨offset, letter⟩ ∧
      place = ⟨start + 1 + offset, start + 1 + offset + Text.size ['\\', letter]⟩ := by
  obtain ⟨failure, ahead, explained, same⟩ := exists_failure fails
  cases reason : failure.reason with
  | expected what =>
    rw [Parser.Failure.error, reason] at same
    cases same
  | badEscape fault =>
    obtain ⟨other, begins, first, bad⟩ := explained fault reason
    rw [Parser.Failure.error_of_badEscape reason first] at same
    obtain ⟨span, rfl, rfl⟩ := SyntaxError.invalidEscape.inj same
    have memberOther := ahead.subset (List.mem_of_head? first)
    have marks := (Lexer.tokensFrom_tiles 0 source).marks
    -- Strings over one range have one text, so the string at which reading stopped is this one.
    have text := (marks _ member).slice
    rw [span, (marks _ memberOther).slice] at text
    obtain rfl : other = body := List.append_cancel_right (List.cons.inj (Option.some.inj text)).2
    obtain rfl : start = begins := congrArg Span.start span
    exact ⟨fault.offset, bad, rfl⟩

end Session

namespace Token

variable {source body : List Char} {start : Nat}

private theorem readAs_of_unescape {value : List Char}
    (member : (⟨.quoted body, start⟩ : Token) ∈ Lexer.tokens source)
    (resolved : Literal.unescape body = .ok value) :
    ReadAs source ⟨.quoted body, start⟩ (String.ofList value) where
  alone session rest ahead := by
    have read : Parser.readTerm session.rest =
        .ok (.literal ⟨.quoted body, start⟩ (.str (String.ofList value)), rest) := by
      rw [ahead, Parser.readTerm_cons, Parser.afterOpening,
        Phrase.opening_of_value (Literal.value?_of_unescape resolved)]
      rfl
    have brief := session.reading_eq .term
    rw [Session.answer_eq]
    cases found : session.reading .term with
    | error failure =>
      rw [found] at brief
      cases brief.trans read
    | ok reading =>
      rw [found] at brief
      cases Except.ok.inj (brief.trans read)
      exact ⟨rfl, rfl⟩
  taken calls call root succeeds inside untaken := by
    rcases Session.literal_taken (Literal.value?_of_unescape resolved) succeeds inside with
      behind | ⟨index, other, span, same, stored⟩
    · exact absurd behind untaken
    · cases Except.ok.inj same
      exact ⟨index, span, stored⟩
  faultless calls call place letter fails := by
    obtain ⟨offset, bad, -⟩ := Session.unescape_of_error member fails
    cases resolved.symm.trans bad

private theorem refusedAt_of_unescape {offset : Nat} {letter : Char}
    (member : (⟨.quoted body, start⟩ : Token) ∈ Lexer.tokens source)
    (resolved : Literal.unescape body = .error ⟨offset, letter⟩) :
    RefusedAt source ⟨.quoted body, start⟩
      ⟨start + 1 + offset, start + 1 + offset + Text.size ['\\', letter]⟩ letter where
  alone session rest call ahead := by
    obtain ⟨failure, read, stop⟩ :=
      Session.exists_failure_of_badEscape ahead (Literal.value?_of_unescape resolved) call
    have first : failure.rest.head? = some ⟨.quoted body, start⟩ :=
      congrArg (fun stop => stop.rest.head?) stop
    rw [Session.answer_eq, read]
    exact congrArg Except.error
      (Parser.Failure.error_of_badEscape (congrArg Parser.Stop.reason stop) first session.size)
  untaken calls call root succeeds inside := by
    rcases Session.literal_taken (Literal.value?_of_unescape resolved) succeeds inside with
      behind | ⟨index, value, span, same, -⟩
    · exact behind
    · cases same
  blamed calls call place escape fails := by
    obtain ⟨other, bad, rfl⟩ := Session.unescape_of_error member fails
    cases resolved.symm.trans bad
    exact ⟨rfl, rfl⟩

end Token

/-- The text of every string token is that of one row of units. If they all mean something, the
token is read as what they mean; if not, it is refused because of the first one that does not,
which is found in the source under the range of the error, between the quotes. -/
theorem string_token_resolved {source body : List Char} {start : Nat}
    (member : (⟨.quoted body, start⟩ : Token) ∈ Lexer.tokens source) :
    let token : Token := ⟨.quoted body, start⟩
    ∃ units, StringUnit.Spell units body ∧
      (∀ others, StringUnit.Spell others body → others = units) ∧
      ((∃ value, StringUnit.Denote units value ∧ token.ReadAs source (String.ofList value)) ∨
        ∃ front letter, StringUnit.FirstUnknown units front letter ∧
          let place := StringUnit.range start front (.escape letter)
          Text.slice? source place = some ['\\', letter] ∧
            start < place.start ∧ place.stop < token.stop ∧
            token.RefusedAt source place letter) := by
  intro token
  have proper := Lexer.isStringBody_of_mem member
  obtain ⟨units, spell⟩ := StringUnit.exists_spell proper
  refine ⟨units, spell, fun _ other => spell.unique other, ?_⟩
  rcases StringUnit.denote_or_firstUnknown units with ⟨value, denote⟩ | ⟨front, letter, first⟩
  · exact .inl ⟨value, denote, Token.readAs_of_unescape member (spell.unescape denote)⟩
  · have bad := spell.unescape_unknown first
    have marks := (Lexer.tokensFrom_tiles 0 source).marks _ member
    obtain ⟨before, back, rfl, offset⟩ := StringUnit.exists_of_bad_escape proper bad
    obtain ⟨place, opens, closes⟩ := Token.marks_inside (List.cons_ne_nil _ _) marks
    change Text.size (front.flatMap StringUnit.text) = Text.size before at offset
    rw [← offset] at place opens closes
    exact .inr ⟨front, letter, first, place.slice, opens, closes,
      Token.refusedAt_of_unescape member bad⟩

/-- The first of two bad escapes, behind a letter of two bytes and a good escape. -/
theorem first_bad_escape_refused :
    (⟨.quoted "é\\n\\q\\z".toList, 3⟩ : Token).RefusedAt "f (\"é\\n\\q\\z\")".toList
      ⟨8, 10⟩ 'q' := by
  have member : (⟨.quoted "é\\n\\q\\z".toList, 3⟩ : Token) ∈
      Lexer.tokens "f (\"é\\n\\q\\z\")".toList := by
    have read : Lexer.tokens "f (\"é\\n\\q\\z\")".toList =
        [⟨.identifier "f", 0⟩, ⟨.symbol .leftParen, 2⟩, ⟨.quoted "é\\n\\q\\z".toList, 3⟩,
          ⟨.symbol .rightParen, 13⟩] := by cbv
    rw [read]
    decide
  obtain ⟨units, -, unique, resolved⟩ := string_token_resolved member
  obtain rfl := unique [.plain 'é', .escape 'n', .escape 'q', .escape 'z'] ⟨by decide, by decide⟩
  have silent (value : List Char) (front : List StringUnit) :
      ¬ StringUnit.Denote (.plain 'é' :: .escape 'n' :: .escape 'q' :: front) value := by
    intro denote
    have listed : none ∈ value.map some := by
      rw [← denote]
      exact List.mem_cons_of_mem _ (List.mem_cons_of_mem _ List.mem_cons_self)
    simp at listed
  rcases resolved with ⟨value, denote, -⟩ |
    ⟨front, letter, ⟨⟨back, split⟩, ⟨value, denote⟩, unknown⟩, -, -, -, refused⟩
  · exact absurd denote (silent value _)
  · rcases front with _ | ⟨first, _ | ⟨second, _ | ⟨third, front⟩⟩⟩
    · cases split
    · cases split
      cases unknown
    · cases split
      exact refused
    · simp only [List.cons_append, List.cons.injEq] at split
      obtain ⟨rfl, rfl, rfl, -⟩ := split
      exact absurd denote (silent value front)

end ClamSyntax
