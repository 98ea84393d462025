import ClamSyntax.Proofs.Parser.Progress
import ClamSyntax.Proofs.Session.Consumption

namespace ClamSyntax

namespace Metered

open ClamSyntax.Parser

def finish (phrase : Phrase) : Metered Phrase := do
  let token ← take
  if token.kind = .endOfInput then return phrase else refuse (.expected .endOfInput) token

/-- A call, within the allowance. -/
def call (allowance : Nat) : Session.Call → Metered Phrase
  | .term => term (expression allowance) allowance
  | .expression least => expression allowance least
  | .program => do
    let phrase ← expression allowance 0
    finish phrase

/-- The cursor after calls, each with a new meter. -/
def after (allowance : Nat) (cursor : Cursor) (calls : List Session.Call) : Cursor :=
  calls.foldl (fun cursor next => (call allowance next (.on cursor)).2.cursor) cursor

/-- A call ended as its reading does; the end was taken once at most. -/
def Closed (input : Remainder) (reading : Reading Phrase) : Except Halt Phrase × Meter → Prop
  | (.ok phrase, after) =>
    ∃ rest, reading = .ok (phrase, rest) ∧ ∃ ends ≤ 1, after.Stands input rest ends
  | (.error (.refused error), after) =>
    ∃ stop, reading = .error stop ∧ error = stop.error input.size ∧ after.Refused input stop
  | (.error .exhausted, _) => False

variable {input : Remainder} {allowance : Nat} {meter : Meter}

theorem Keeps.closed {reader : Metered Phrase} {reading : Reading Phrase} {tokens : List Token}
    (keeps : Keeps input reader tokens reading) (stands : meter.Stands input tokens 0) :
    Closed input reading (reader meter) := by
  have ended := keeps meter stands
  generalize reader meter = reached at ended
  match reached, ended with
  | (.ok phrase, _), ⟨rest, behind, read⟩ => exact ⟨rest, read, 0, Nat.zero_le 1, behind⟩
  | (.error (.refused error), _), refused => exact refused

def readFinish (phrase : Phrase) : List Token → Reading Phrase
  | [] => .ok (phrase, [])
  | token :: rest => .error ⟨.expected .endOfInput, token :: rest⟩

private theorem readProgram_eq_andThen (tokens : List Token) :
    (readProgram tokens).map (fun phrase => (phrase, [])) =
      (readExpression 0 tokens).andThen readFinish := by
  rw [readProgram_eq]
  match readExpression 0 tokens with
  | .ok (_, []) | .ok (_, _ :: _) | .error _ => rfl

private theorem finish_closed (phrase : Phrase) {tokens : List Token}
    (stands : meter.Stands input tokens 0) :
    Closed input (readFinish phrase tokens) (finish phrase meter) := by
  cases tokens with
  | nil =>
    have atEnd : meter.cursor.take.1 = Token.atEnd input.size := stands.next
    have closing := stands.takeEnd
    simp only [finish, bind, take]
    rw [atEnd] at closing ⊢
    exact ⟨[], rfl, 1, Nat.le_refl 1, closing⟩
  | cons token rest =>
    have proper : token.kind ≠ .endOfInput := by
      refine input.proper token ?_
      rw [← List.append_nil input.tokens]
      exact stands.split ▸ List.mem_append_right _ List.mem_cons_self
    exact Keeps.closed (follows_refuse token rfl (if_neg proper)) stands

private theorem program_closed (stands : meter.Stands input input.tokens 0)
    (enough : input.tokens.length < allowance) :
    Closed input ((readProgram input.tokens).map fun phrase => (phrase, []))
      (call allowance .program meter) := by
  have ended := expression_keeps allowance 0 enough meter stands
  rw [readProgram_eq_andThen]
  simp only [call, bind]
  generalize expression allowance 0 meter = reached at ended
  match reached, ended with
  | (.ok phrase, behind), ⟨rest, standsBehind, read⟩ =>
    rw [read]
    exact finish_closed phrase standsBehind
  | (.error (.refused error), _), ⟨stop, stopped, refused⟩ =>
    rw [stopped]
    exact ⟨stop, rfl, refused⟩

/-- A call loses no lap that was recorded, however it ends. -/
theorem call_keepsLaps (allowance : Nat) (next : Session.Call) :
    KeepsLaps (call allowance next) := by
  cases next with
  | term => exact KeepsLaps.term (KeepsLaps.expression allowance) allowance
  | expression least => exact KeepsLaps.expression allowance least
  | program =>
    refine (KeepsLaps.expression allowance 0).bind fun phrase => KeepsLaps.take.bind fun token => ?_
    split
    · exact KeepsLaps.pure _
    · exact KeepsLaps.refuse _ _

/-- Every call ends as the session reads. -/
theorem call_closed (session : Session) (rest : session.rest = input.tokens)
    (stands : meter.Stands input input.tokens 0) (enough : input.tokens.length < allowance)
    (next : Session.Call) :
    Closed input ((session.reading next).mapError Failure.stop) (call allowance next meter) := by
  rw [session.reading_eq, rest]
  cases next with
  | term =>
    have nests : Nests input (expression allowance) allowance :=
      fun least below => expression_keeps allowance least below
    exact (term_keeps nests (Nat.le_of_lt enough)).closed stands
  | expression least => exact (expression_keeps allowance least enough).closed stands
  | program => exact program_closed stands enough

end Metered

namespace Session

/-- The session answers a call with the phrase that was read, or with the error. -/
def Answers (session : Session) (call : Call) : Except Halt Phrase → Prop
  | .ok phrase => session.answer call = session.accept phrase (session.answer call).session.rest
  | .error (.refused error) => (session.answer call).result = .error error
  | .error .exhausted => False

/-- What is left of a source after calls. -/
def remainder (source : List Char) (calls : List Call) : Remainder where
  tokens := ((ofSource source).after calls).rest
  size := Text.size source
  proper token member :=
    have part := (ofSource source).after_rest_suffix calls
    Lexer.kind_ne_endOfInput (Lexer.tokens_proper source token (part.subset member))

end Session

namespace Metered

open Session

/-- A metered call finds what the session finds, and comes to the same tokens. -/
theorem call_answers (source : List Char) (calls : List Call) (next : Call) {allowance : Nat}
    {meter : Meter}
    (stands : meter.Stands (remainder source calls) (remainder source calls).tokens 0)
    (enough : (remainder source calls).tokens.length < allowance) :
    let session := (ofSource source).after calls
    let (outcome, behind) := call allowance next meter
    session.Answers next outcome ∧
      ∃ ends ≤ 1,
        behind.Stands (remainder source calls) (session.answer next).session.rest ends := by
  intro session
  have closed := call_closed session rfl stands enough next
  have answer := session.answer_eq next
  generalize call allowance next meter = reached at closed
  have size : session.size = Text.size source := (ofSource source).after_size calls
  generalize session.reading next = reading at closed answer
  obtain ⟨outcome, behind⟩ := reached
  cases outcome with
  | ok phrase =>
    obtain ⟨rest, read, ends, once, standsBehind⟩ := closed
    cases reading with
    | error failure => cases read
    | ok found =>
      obtain rfl : found = (phrase, rest) := Except.ok.inj read
      simp only [Answers, answer]
      exact ⟨rfl, ends, once, standsBehind⟩
  | error halt =>
    cases halt with
    | exhausted => exact closed.elim
    | refused error =>
      obtain ⟨stop, stopped, refusal, refused⟩ := closed
      cases reading with
      | ok found => cases stopped
      | error failure =>
        obtain rfl : failure.stop = stop := Except.error.inj stopped
        simp only [Answers, answer]
        have same : failure.error session.size = error := by
          rw [size]
          exact refusal.symm
        exact ⟨congrArg Except.error same, refused⟩

theorem stands_on {input : Remainder} {cursor : Cursor}
    (coming : ∀ index,
      cursor.coming index = input.tokens[index]?.getD (Token.atEnd input.size)) :
    (Meter.on cursor).Stands input input.tokens 0 :=
  ⟨coming, (List.append_nil _).symm, List.forall_mem_nil _⟩

private theorem remainder_length_le (source : List Char) (calls : List Call) :
    (remainder source calls).tokens.length ≤ (Lexer.tokens source).length :=
  ((ofSource source).after_rest_suffix calls).length_le

private theorem after_concat (allowance : Nat) (cursor : Cursor) (calls : List Call) (next : Call) :
    after allowance cursor (calls ++ [next]) =
      (call allowance next (.on (after allowance cursor calls))).2.cursor :=
  List.foldl_append ..

private theorem remainder_concat (source : List Char) (calls : List Call) (next : Call) :
    (remainder source (calls ++ [next])).tokens =
      (((ofSource source).after calls).answer next).session.rest :=
  congrArg Session.rest (List.foldl_append ..)

/-- The cursor comes to the tokens that the session has left. -/
theorem after_coming (source : List Char) (calls : List Call) (index : Nat) :
    (after ((Lexer.tokens source).length + 1) (.ofSource source) calls).coming index =
      (remainder source calls).tokens[index]?.getD (Token.atEnd (Text.size source)) := by
  -- on the calls, the last one apart: before it the cursor stands where the session does
  induction calls using List.reverseRecOn generalizing index with
  | nil =>
    rw [after, List.foldl_nil, (Cursor.at_start source).coming, Nat.zero_add]
    rfl
  | append_singleton calls next ih =>
    have enough := Nat.lt_succ_of_le (remainder_length_le source calls)
    have called := call_answers source calls next (stands_on ih) enough
    rw [after_concat, remainder_concat]
    generalize call _ next (.on _) = reached at called ⊢
    obtain ⟨-, ends, -, stands⟩ := called
    exact stands.coming index

end Metered

/-- Any call on a source, after any others, ends. Where `count` tokens are left an allowance of
`count + 1` is never used up, however much more there is: expressions nest no deeper, and no loop
turns more often. The outcome is the session's answer. The call takes its own tokens and the end
once at most, and every term and expression that is read, and every turn of a loop behind which
the loop goes on, takes a token that is not the end. -/
theorem call_progresses (source : List Char) (calls : List Session.Call) (next : Session.Call)
    (spare : Nat) :
    let session := (Session.ofSource source).after calls
    let count := session.rest.length
    let cursor := Metered.after ((Lexer.tokens source).length + 1) (.ofSource source) calls
    let (outcome, meter) := Metered.call (count + 1 + spare) next (.on cursor)
    session.Answers next outcome ∧
      meter.taken.length ≤ count + 1 ∧
      (∃ ends ≤ 1, meter.taken ++ (session.answer next).session.rest =
        session.rest ++ List.replicate ends (Token.atEnd (Text.size source))) ∧
      ∀ lap ∈ meter.laps, ∃ token ∈ lap.tokens, token.kind ≠ .endOfInput := by
  intro session count cursor
  have stands := Metered.stands_on (Metered.after_coming source calls)
  have enough : count < count + 1 + spare := by omega
  have called := Metered.call_answers source calls next stands enough
  generalize Metered.call (count + 1 + spare) next (.on cursor) = reached at called ⊢
  obtain ⟨answers, ends, once, behind⟩ := called
  refine ⟨answers, ?_, ⟨ends, once, behind.split⟩, behind.laps⟩
  have lengths := congrArg List.length behind.split
  rw [List.length_append, List.length_append, List.length_replicate] at lengths
  exact Nat.le_trans (Nat.le_add_right _ _) (lengths.trans_le (Nat.add_le_add_left once _))

/-- Every parenthesis nests an expression, up to the one that finds the end: two of them need all
of the allowance. -/
example :
    let outcome (allowance : Nat) :=
      (Metered.call allowance .program (.on (.ofSource "((".toList))).1
    (∃ error, outcome 3 = .error (.refused error)) ∧ outcome 2 = .error .exhausted :=
  ⟨⟨_, by rfl⟩, by rfl⟩

/-- The laps of an application: two terms, the expression that is its argument, the turn that
reads it, and the whole. -/
example :
    ((Metered.call 3 .program (.on (.ofSource "f x".toList))).2.laps.map fun lap =>
      (lap.stretch, lap.tokens.length)) =
        [(.term, 1), (.term, 1), (.expression, 1), (.continuation, 1), (.expression, 2)] := by
  decide +kernel

end ClamSyntax
