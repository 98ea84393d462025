import ClamSyntax.Proofs.Arena.Roots
import ClamSyntax.Proofs.Parser.Pieces
import ClamSyntax.Proofs.Session.Calls
import Mathlib

namespace ClamSyntax

namespace Session

/-- What a call reads: a phrase and the tokens behind it, or a failure. -/
def reading (session : Session) : Call → Except Parser.Failure (Phrase × List Token)
  | .term => (Parser.term session.rest).result
  | .expression least => (Parser.expression least session.rest).result
  | .program => (Parser.program session.rest).map fun phrase => (phrase, [])

/-- A call reads, and then stores what it read. -/
theorem answer_eq (session : Session) (call : Call) :
    session.answer call =
      match session.reading call with
      | .ok (phrase, rest) => session.accept phrase rest
      | .error failure => session.refuse failure := by
  cases call with
  | term =>
    rw [answer, term, reading]
    cases Parser.term session.rest <;> rfl
  | expression least =>
    rw [answer, expression, reading]
    cases Parser.expression least session.rest <;> rfl
  | program =>
    rw [answer, program, reading]
    cases Parser.program session.rest <;> rfl

/-- What a call reads, without the pieces of a failure. -/
theorem reading_eq (session : Session) (call : Call) :
    (session.reading call).mapError Parser.Failure.stop =
      match call with
      | .term => Parser.readTerm session.rest
      | .expression least => Parser.readExpression least session.rest
      | .program => (Parser.readProgram session.rest).map fun phrase => (phrase, []) := by
  cases call with
  | term =>
    rw [reading, Parser.readTerm]
    cases Parser.term session.rest <;> rfl
  | expression least =>
    simp only [reading, Parser.readExpression]
    cases Parser.expression least session.rest <;> rfl
  | program =>
    simp only [reading, Parser.readProgram]
    cases Parser.program session.rest <;> rfl

/-- A phrase that a call reads is grammatical. -/
theorem reading_grammatical {session : Session} {call : Call} {phrase : Phrase} {rest : List Token}
    (read : session.reading call = .ok (phrase, rest)) : phrase.Grammatical := by
  have brief := session.reading_eq call
  rw [read] at brief
  cases call with
  | term =>
    have account := Parser.term_accounts (Parser.accountsBelow _) (Nat.le_refl session.rest.length)
    obtain ⟨-, -, -, holds, -⟩ := account.read brief.symm
    exact holds.1
  | expression least =>
    have account := Parser.expression_accounts_all least session.rest
    obtain ⟨-, -, -, holds, -⟩ := account.read brief.symm
    exact holds.1
  | program =>
    cases found : Parser.readProgram session.rest with
    | error stop =>
      rw [found] at brief
      cases brief
    | ok other =>
      rw [found] at brief
      cases brief
      exact (Parser.readProgram_sound found).2

/-- Where a call fails because of an escape, the token there is a string that has it. -/
theorem reading_explained {session : Session} {call : Call} {failure : Parser.Failure}
    (fails : session.reading call = .error failure) : failure.stop.Explained := by
  have brief := session.reading_eq call
  rw [fails] at brief
  cases call with
  | term =>
    have account := Parser.term_accounts (Parser.accountsBelow _) (Nat.le_refl session.rest.length)
    obtain ⟨-, -, -, explained, -⟩ := account.stopped brief.symm
    exact explained
  | expression least =>
    have account := Parser.expression_accounts_all least session.rest
    obtain ⟨-, -, -, explained, -⟩ := account.stopped brief.symm
    exact explained
  | program =>
    cases found : Parser.readProgram session.rest with
    | ok phrase =>
      rw [found] at brief
      cases brief
    | error stop =>
      rw [found] at brief
      obtain rfl : failure.stop = stop := Except.error.inj brief
      obtain ⟨-, -, -, explained, -⟩ := Parser.readProgram_stopped found
      exact explained

end Session

namespace Parser

private theorem program_splits (tokens : List Token) :
    match program tokens with
    | .ok phrase => tokens = phrase.tokens
    | .error failure => tokens = failure.taken ++ failure.rest := by
  have splits := (splitsBelow (tokens.length + 1)).expression (Nat.lt_succ_self _) 0
  rw [program]
  generalize expression 0 tokens = outcome at splits
  cases outcome with
  | failed failure => exact splits
  | read phrase rest shorter =>
    cases rest with
    | nil => exact splits.trans (List.append_nil _)
    | cons token rest => exact splits.trans (by simp [Failure.taken, Piece.tokens])

end Parser

namespace Session

/-- The tokens that a call takes and those that it leaves are the ones that were there. -/
theorem reading_splits (session : Session) (call : Call) :
    match session.reading call with
    | .ok (phrase, rest) => session.rest = phrase.tokens ++ rest
    | .error failure => session.rest = failure.taken ++ failure.rest := by
  have below := Parser.splitsBelow (session.rest.length + 1)
  have here := Nat.lt_succ_self session.rest.length
  cases call with
  | term =>
    have splits := Parser.term_splits (Parser.splitsBelow session.rest.length) (Nat.le_refl _)
    rw [reading]
    generalize Parser.term session.rest = outcome at splits
    cases outcome <;> exact splits
  | expression least =>
    have splits := below.expression here least
    rw [reading]
    generalize Parser.expression least session.rest = outcome at splits
    cases outcome <;> exact splits
  | program =>
    have splits := Parser.program_splits session.rest
    rw [reading]
    generalize Parser.program session.rest = outcome at splits
    cases outcome with
    | error failure => exact splits
    | ok phrase => exact splits.trans (List.append_nil _).symm

/-- A call reads on in the tokens that were there. -/
theorem answer_rest_suffix (session : Session) (call : Call) :
    (session.answer call).session.rest <:+ session.rest := by
  have splits := session.reading_splits call
  rw [session.answer_eq]
  generalize session.reading call = reading at splits
  match reading, splits with
  | .ok (phrase, rest), splits => exact ⟨phrase.tokens, splits.symm⟩
  | .error failure, splits =>
    exact (List.tail_suffix failure.rest).trans ⟨failure.taken, splits.symm⟩

theorem after_rest_suffix (session : Session) (calls : List Call) :
    (session.after calls).rest <:+ session.rest := by
  induction calls generalizing session with
  | nil => exact List.suffix_refl _
  | cons call calls ih =>
    exact (ih (session.answer call).session).trans (session.answer_rest_suffix call)

/-- After any calls on a source its tokens still stand in order. -/
theorem after_rest_inOrder (source : List Char) (calls : List Call) :
    InOrder ((ofSource source).after calls).rest :=
  (Lexer.tokens_inOrder source).sublist ((ofSource source).after_rest_suffix calls).sublist

/-- A call that succeeds stores the phrase that the tokens it takes spell. -/
theorem exists_accept {session : Session} {call : Call} {root : Nat}
    (succeeds : (session.answer call).result = .ok root) :
    ∃ phrase rest, session.rest = phrase.tokens ++ rest ∧
      (phrase.store session.arena none).root = root ∧
      session.answer call = session.accept phrase rest := by
  have splits := session.reading_splits call
  have answered := session.answer_eq call
  cases read : session.reading call with
  | error failure =>
    rw [answered, read] at succeeds
    cases succeeds
  | ok found =>
    obtain ⟨phrase, rest⟩ := found
    rw [read] at answered splits
    rw [answered] at succeeds
    exact ⟨phrase, rest, splits, Except.ok.inj succeeds, answered⟩

end Session

/-- After any calls on a source, a call that succeeds takes at least one token, and the range of
its root is exactly that of the tokens it took: from the start of the first one to the end of the
last. The tokens that it leaves, the one it looked at included, it has not taken. -/
theorem root_covers_consumed (source : List Char) (calls : List Session.Call)
    (call : Session.Call) {root : Nat}
    (succeeds : (((Session.ofSource source).after calls).answer call).result = .ok root) :
    let session := (Session.ofSource source).after calls
    let behind := (session.answer call).session
    ∃ (consumed : List Token) (some_token : consumed ≠ []) (node : Node),
      session.rest = consumed ++ behind.rest ∧
      session.rest <:+ Lexer.tokens source ∧
      behind.arena.get? root = some node ∧
      node.span = ⟨(consumed.head some_token).start, (consumed.getLast some_token).stop⟩ := by
  intro session behind
  obtain ⟨phrase, rest, splits, rfl, answered⟩ := Session.exists_accept succeeds
  obtain ⟨later, first⟩ := phrase.exists_tokens_eq_cons
  obtain ⟨front, last⟩ := phrase.exists_tokens_eq_concat
  have node := phrase.get?_root session.arena []
  have accepted : behind = (session.accept phrase rest).session :=
    congrArg Session.Answer.session answered
  rw [Arena.append_nil] at node
  rw [accepted]
  have head : phrase.tokens.head phrase.tokens_ne_nil = phrase.first := by
    simp only [first, List.head_cons]
  have final : phrase.tokens.getLast phrase.tokens_ne_nil = phrase.last := by
    simp only [last, List.getLast_concat]
  refine ⟨phrase.tokens, phrase.tokens_ne_nil, _, splits,
    (Session.ofSource source).after_rest_suffix calls, node, ?_⟩
  rw [phrase.span_eq, head, final]

/-- The second call takes a subscript of parentheses, and leaves the comma behind it. -/
theorem subscript_covers_consumed :
    let session := (Session.ofSource "f (a+b)[0], c".toList).after [.term]
    let behind := (session.answer (.expression 0)).session
    ∃ (consumed : List Token) (some_token : consumed ≠ []) (node : Node),
      session.rest = consumed ++ behind.rest ∧
      session.rest <:+ Lexer.tokens "f (a+b)[0], c".toList ∧
      behind.arena.get? 5 = some node ∧
      node.span = ⟨(consumed.head some_token).start, (consumed.getLast some_token).stop⟩ :=
  root_covers_consumed "f (a+b)[0], c".toList [.term] (.expression 0) (by cbv)

end ClamSyntax
