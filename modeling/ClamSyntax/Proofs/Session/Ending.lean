import ClamSyntax.Proofs.Parser.Ending
import ClamSyntax.Proofs.Session.Consumption
import ClamSyntax.Proofs.Session.Expectation
import Mathlib

namespace ClamSyntax

def Session.next (session : Session) : TokenKind := nextKind session.rest

private theorem Parser.Failure.kind_found (failure : Failure) (size : Nat) :
    (failure.found size).kind = nextKind failure.rest := by
  rw [found, nextKind]
  cases failure.rest <;> rfl

namespace Session

variable {session : Session}

private theorem expression_result {least root : Nat}
    (succeeds : (session.expression least).result = .ok root) :
    ∃ phrase, Parser.readExpression least session.rest =
      .ok (phrase, (session.expression least).session.rest) := by
  rw [expression, Parser.readExpression]
  rw [expression] at succeeds
  cases read : Parser.expression least session.rest with
  | failed failure =>
    rw [read] at succeeds
    cases succeeds
  | read phrase rest shorter => exact ⟨phrase, rfl⟩

/-- Every call that fails stops aptly. -/
theorem reading_apt {call : Call} {failure : Parser.Failure}
    (fails : session.reading call = .error failure) : failure.stop.Apt := by
  have below := Parser.aptBelow (session.rest.length + 1)
  have here := Nat.lt_succ_self session.rest.length
  have brief := session.reading_eq call
  rw [fails] at brief
  cases call with
  | term => exact Parser.term_apt below (Nat.le_of_lt here) _ brief.symm
  | expression least => exact below.expression here least _ brief.symm
  | program =>
    cases found : Parser.readProgram session.rest with
    | ok phrase =>
      rw [found] at brief
      cases brief
    | error stop =>
      rw [found] at brief
      obtain rfl : failure.stop = stop := Except.error.inj brief
      exact Parser.readProgram_apt found

end Session

/-- Behind an expression that was read at a least power, in any session, stands a token that ends
expressions, an operator whose left power is less, or, where the least power is above that of an
application, a token that opens a term; but no opening bracket, no misplaced token. At the power
zero that is a token that ends expressions. So whenever a call misses what closes a form, what
separates items, or the end of the input, it finds one of those tokens there. -/
theorem expression_ends (session : Session) :
    (∀ least root, (session.expression least).result = .ok root →
      (session.expression least).session.next.Behind least ∧
        (session.expression least).session.next ∉
          [.symbol .leftBracket, .symbol .assign, .symbol .arrow, .invalid]) ∧
    (∀ root, (session.expression 0).result = .ok root →
      (session.expression 0).session.next ∈ TokenKind.terminators) ∧
    ∀ call expected found place,
      (session.answer call).result = .error (.unexpected expected found place) →
        expected ∈ Expectation.closing → found ∈ TokenKind.terminators := by
  refine ⟨fun least root succeeds => ?_, fun root succeeds => ?_,
    fun call expected found place fails closes => ?_⟩
  · obtain ⟨phrase, read⟩ := Session.expression_result succeeds
    have stops := Parser.readExpression_stops read
    exact ⟨TokenKind.behind_of_stops stops, TokenKind.not_mem_of_stops stops⟩
  · obtain ⟨phrase, read⟩ := Session.expression_result succeeds
    exact Parser.readExpression_terminated read
  · rw [session.answer_eq] at fails
    cases read : session.reading call with
    | ok found =>
      rw [read] at fails
      cases fails
    | error failure =>
      rw [read] at fails
      obtain ⟨reason, kind, -⟩ := failure.expected_of_error (Except.error.inj fails)
      rw [← kind, failure.kind_found]
      exact Session.reading_apt read expected closes reason

/-- At the power of an argument a name ends before the name behind it; a sum ends before `then`; and
a parenthesis that is not closed is missed at `in`. -/
theorem endings_found :
    let name := (Session.ofSource "f x".toList).expression 17
    let sum := (Session.ofSource "a + b then".toList).expression 0
    let group := (Session.ofSource "(a in".toList).answer .program
    (name.result = .ok 0 ∧ name.session.next = .identifier ∧ name.session.next.Behind 17) ∧
    (sum.result = .ok 2 ∧ sum.session.next ∈ TokenKind.terminators) ∧
    group.result = .error (.unexpected (.symbol .rightParen) (.symbol .kwIn) ⟨3, 5⟩) ∧
      .symbol .kwIn ∈ TokenKind.terminators := by
  have named : ((Session.ofSource "f x".toList).expression 17).result = .ok 0 := by cbv
  have next : ((Session.ofSource "f x".toList).expression 17).session.next = .identifier := by cbv
  have added : ((Session.ofSource "a + b then".toList).expression 0).result = .ok 2 := by cbv
  have missed : ((Session.ofSource "(a in".toList).answer .program).result =
      .error (.unexpected (.symbol .rightParen) (.symbol .kwIn) ⟨3, 5⟩) := by cbv
  exact ⟨⟨named, next, ((expression_ends _).1 17 0 named).1⟩,
    ⟨added, (expression_ends _).2.1 2 added⟩, missed,
    (expression_ends _).2.2 .program _ _ _ missed (by decide)⟩

end ClamSyntax
