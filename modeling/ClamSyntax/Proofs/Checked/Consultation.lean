import ClamSyntax.Proofs.Checked.Agreement
import ClamSyntax.Proofs.Checked.Report
import ClamSyntax.Proofs.Session.Calls

namespace ClamSyntax

/-- What calls on a source found: the roots of those that succeeded, and the store behind them
or the error of the call that failed, with its report. -/
structure Findings where
  roots : List Nat
  ending : Except (SyntaxError × String) Arena

/-- One more call succeeded before the others. -/
def Findings.behind (found : Findings) (root : Nat) : Findings :=
  { found with roots := root :: found.roots }

namespace Session

/-- Calls the session up to the first error, which is reported. -/
def consult (source : List Char) (file : String) (session : Session) : List Call → Findings
  | [] => ⟨[], .ok session.arena⟩
  | call :: calls =>
    let answer := session.answer call
    match answer.result with
    | .ok root => (consult source file answer.session calls).behind root
    | .error error => ⟨[], .error (error, Diagnostic.render source file error)⟩

/-- The answer that the outcome of a reading amounts to. -/
def settle (session : Session) : Parser.Outcome Phrase origin → Answer
  | .read phrase rest _ => session.accept phrase rest
  | .failed failure => session.refuse failure

theorem answer_term (session : Session) :
    session.answer .term = session.settle (Parser.term session.rest) := by
  rw [answer, term]
  cases Parser.term session.rest <;> rfl

theorem answer_expression (session : Session) (least : Nat) :
    session.answer (.expression least) =
      session.settle (Parser.expression least session.rest) := by
  rw [answer, expression]
  cases Parser.expression least session.rest <;> rfl

/-- The session reads the source, which it has read up to a token. -/
structure Reads (source : List Char) (session : Session) : Prop where
  size : session.size = Text.size source
  part : session.rest <:+ Lexer.tokens source

private theorem reads_ofSource (source : List Char) : (ofSource source).Reads source :=
  ⟨rfl, List.suffix_refl _⟩

end Session

namespace Checked

open ClamSyntax.Parser Step

/-- The answer to a call, with the state behind it. -/
def answer (source : List Char) (ending : Placed) (state : State) :
    Session.Call → Except Fault (Except SyntaxError (Nat × State))
  | .term => (term source ending state).outcome
  | .expression least => (expression source ending least state).outcome
  | .program => do
    match ← (expression source ending 0 state).outcome with
    | .error error => return .error error
    | .ok (root, ⟨[], arena⟩) => return .ok (root, ⟨[], arena⟩)
    | .ok (_, ⟨token :: _, _⟩) => return .error (unexpected .endOfInput token)

/-- Calls up to the first error, which is reported. -/
def answers (source : List Char) (file : String) (ending : Placed) (state : State) :
    List Session.Call → Except Fault Findings
  | [] => return ⟨[], .ok state.arena⟩
  | call :: calls => do
    match ← answer source ending state call with
    | .ok (root, behind) => return (← answers source file ending behind calls).behind root
    | .error error => return ⟨[], .error (error, ← render source file error)⟩

/-- Calls on a source. All its tokens are scanned beforehand, and the one at its end: a reader
that scans a token when it needs it makes some of the same scans. -/
def consult (source : List Char) (file : String) (calls : List Session.Call) :
    Except Fault Findings := do
  let tokens ← tokens source
  let (ending, _) ← scan source (Text.size source)
  answers source file ending ⟨tokens, .empty⟩ calls

/-- The result of an answer, with the state in which the next call reads. -/
def stateBehind (answer : Session.Answer) : Except SyntaxError (Nat × State) :=
  answer.result.map fun root => (root, .at answer.session.rest answer.session.arena)

variable {source : List Char} {session : Session} {origin : State}

private theorem settle_agrees {tokens : List Token} {outcome : Outcome Phrase tokens}
    (size : session.size = Text.size source) {step : Step Nat origin}
    (agrees : step.Agrees source (storePhrase session.arena) outcome.reading) :
    step.outcome = .ok (stateBehind (session.settle outcome)) := by
  obtain ⟨rest, width, arena⟩ := session
  cases size
  cases outcome <;> exact agrees

private theorem reads_settle {outcome : Outcome Phrase session.rest} (reads : session.Reads source)
    (split : ∀ phrase rest, outcome.reading = .ok (phrase, rest) →
      session.rest = phrase.tokens ++ rest) {root : Nat}
    (succeeds : (session.settle outcome).result = .ok root) :
    (session.settle outcome).session.Reads source := by
  cases outcome with
  | failed failure => cases succeeds
  | read phrase rest shorter =>
    have taken : phrase.tokens ++ rest = session.rest := (split phrase rest rfl).symm
    exact ⟨reads.size, .trans ⟨_, taken⟩ reads.part⟩

private theorem reads_answer (call : Session.Call) (reads : session.Reads source) {root : Nat}
    (succeeds : (session.answer call).result = .ok root) :
    (session.answer call).session.Reads source := by
  cases call with
  | term =>
    rw [Session.answer_term] at succeeds ⊢
    exact reads_settle reads (fun _ _ read => readTerm_split read) succeeds
  | expression least =>
    rw [Session.answer_expression] at succeeds ⊢
    exact reads_settle reads (fun _ _ read => readExpression_split read) succeeds
  | program =>
    rw [Session.answer, Session.program] at succeeds ⊢
    cases read : Parser.program session.rest with
    | error failure =>
      rw [read] at succeeds
      cases succeeds
    | ok phrase => exact ⟨reads.size, List.nil_suffix⟩

/-- A call finds what the session's call finds. -/
theorem answer_agrees (small : Text.size source < UInt32.size) (reads : session.Reads source)
    (call : Session.Call) :
    answer source (ending source) (.at session.rest session.arena) call =
      .ok (stateBehind (session.answer call)) := by
  have below := agreesBelow small (session.rest.length + 1)
  have remaining : Remaining source (session.rest.length + 1) session.rest :=
    ⟨Nat.lt_succ_self _, reads.part⟩
  have expression (least : Nat) :
      (expression source (ending source) least (.at session.rest session.arena)).outcome =
        .ok (stateBehind (session.settle (Parser.expression least session.rest))) :=
    settle_agrees reads.size (below.expression remaining least session.arena)
  cases call with
  | term =>
    rw [Session.answer_term]
    exact settle_agrees reads.size
      (term_agrees small (agreesBelow small session.rest.length) remaining session.arena)
  | expression least =>
    rw [Session.answer_expression]
    exact expression least
  | program =>
    rw [answer, expression, ok_bind, Session.answer, Session.program, Parser.program]
    cases Parser.expression 0 session.rest with
    | failed failure => rfl
    | read phrase rest shorter =>
      cases rest with
      | nil => rfl
      | cons token rest => rfl

/-- Call after call, up to the first error and its report, finds what the session finds. -/
theorem answers_eq (small : Text.size source < UInt32.size) (file : String)
    (reads : session.Reads source) (calls : List Session.Call) :
    answers source file (ending source) (.at session.rest session.arena) calls =
      .ok (session.consult source file calls) := by
  -- only a call that succeeds is followed by others, and behind it the session still reads the
  -- source, which is all that the next call needs
  induction calls generalizing session with
  | nil => rfl
  | cons call calls ih =>
    rw [answers, answer_agrees small reads call, ok_bind, Session.consult, stateBehind]
    cases result : (session.answer call).result with
    | error error =>
      simp only [Except.map, render_eq]
      rfl
    | ok root =>
      simp only [Except.map, ih (reads_answer call reads result)]
      rfl

/-- In a source below 2 ^ 32 bytes no operation ever fails: not in any number of scans, which go
on for ever at the end of the source, and not in any calls up to the first error, nor in its
report. What is found is what the session finds. -/
theorem consult_faultless (source : List Char) (file : String) (calls : List Session.Call)
    (small : Text.size source < UInt32.size) :
    (∀ count, scans source count 0 =
      .ok ((List.range count).map fun index => (Lexer.tokenAt source index).placed)) ∧
    consult source file calls = .ok ((Session.ofSource source).consult source file calls) := by
  obtain ⟨_, -, -, atEnd⟩ := scan_eq (List.append_nil source).symm small
  refine ⟨fun count => scans_tokenAt count small, ?_⟩
  rw [consult, tokens_eq small, ok_bind, atEnd]
  exact answers_eq small file (Session.reads_ofSource source) calls

/-- A bad escape behind a wide character, met by the second call, and its report. -/
theorem bad_escape_faultless :
    let source := "f (\"é\\q\")".toList
    let calls := [.term, .program]
    Text.size source < UInt32.size ∧
    (∀ count, scans source count 0 =
      .ok ((List.range count).map fun index => (Lexer.tokenAt source index).placed)) ∧
    consult source "main.clam" calls =
      .ok ((Session.ofSource source).consult source "main.clam" calls) :=
  have small : Text.size "f (\"é\\q\")".toList < UInt32.size := by decide +kernel
  ⟨small, consult_faultless _ "main.clam" _ small⟩

end Checked

end ClamSyntax
