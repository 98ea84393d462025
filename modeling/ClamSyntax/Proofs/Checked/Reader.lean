import ClamSyntax.Arena.Build
import ClamSyntax.Phrase.Parser
import ClamSyntax.Proofs.Checked.Literal

/-! Reading expressions straight into a store. The reader sees kinds and ranges of tokens, takes
the texts that it needs from the source, looks the ranges of finished nodes up in the store, and
widens them there. Every step says whether it found an expression, a syntax error or an operation
that fails. -/

namespace ClamSyntax.Checked

/-- The tokens to be read, and the nodes so far. -/
structure State where
  rest : List Placed
  arena : Arena

def State.push (state : State) (form : Form) (span : Span) : State :=
  ⟨state.rest, state.arena.push ⟨form, span⟩⟩

/-- Fewer tokens are left than in the other state. -/
def State.Behind (state origin : State) : Prop := state.rest.length < origin.rest.length

namespace State.Behind

variable {first second third : State} {token : Placed} {rest : List Placed} {arena : Arena}

theorem trans (start : first.Behind second) (finish : second.Behind third) : first.Behind third :=
  Nat.lt_trans start finish

theorem one : State.Behind ⟨rest, arena⟩ ⟨token :: rest, arena⟩ := Nat.lt_succ_self _

theorem step (behind : first.Behind ⟨rest, arena⟩) : first.Behind ⟨token :: rest, arena⟩ :=
  behind.trans one

end State.Behind

/-- The end of a step that began in the state `origin`. One that reads takes a token at least. -/
inductive Step (α : Type) (origin : State) where
  | read (value : α) (state : State) (shorter : state.Behind origin)
  | refused (error : SyntaxError)
  | failed (fault : Fault)

namespace Step

variable {origin target : State}

def andThen (step : Step α origin)
    (next : α → (state : State) → state.Behind origin → Step β target) :
    Step β target :=
  match step with
  | .read value state shorter => next value state shorter
  | .refused error => .refused error
  | .failed fault => .failed fault

def check (operation : Except Fault α) (next : α → Step β target) : Step β target :=
  match operation with
  | .ok value => next value
  | .error fault => .failed fault

def push (form : Form) (span : Span) (state : State)
    (shorter : state.Behind origin) : Step Nat origin :=
  .read state.arena.size (state.push form span) shorter

/-- Appends a node that reaches from the offset to the end of its last child. -/
def enclose (start last : Nat) (form : Form) (state : State)
    (shorter : state.Behind origin) : Step Nat origin :=
  check (node state.arena last) fun child =>
    check (range start child.span.stop) fun span => push form span state shorter

def constant (source : List Char) (token : Placed) (state : State)
    (shorter : state.Behind origin) : Step Nat origin :=
  check (literal source token) fun value =>
    match value with
    | .ok value => push (.literal value) token.span state shorter
    | .error error => .refused error

/-- Appends a prefix operation that reaches from its operator over its operand. -/
def prefixed (op : UnaryOp) (place : Span) (operand : Nat) (state : State)
    (shorter : state.Behind origin) : Step Nat origin :=
  check (node state.arena operand) fun child =>
    push (.unary op place operand) (place.cover child.span) state shorter

/-- Appends a function for every parameter, the innermost first, all over one range. -/
def functions (start : Nat) (params : List Name) (body : Nat) (state : State)
    (shorter : state.Behind origin) : Step Nat origin :=
  check (node state.arena body) fun child =>
    check (range start child.span.stop) fun span =>
      let stored := Arena.addFunctions ⟨state.arena, body, child.span⟩ span params.reverse
      .read stored.root ⟨state.rest, stored.arena⟩ shorter

/-- Widens the node in parentheses over them. -/
def grouped (start stop body : Nat) (state : State)
    (shorter : state.Behind origin) : Step Nat origin :=
  check (range start stop) fun span =>
    check (widen state.arena body span) fun arena => .read body ⟨state.rest, arena⟩ shorter

end Step

open Step

def between (arena : Arena) (first last : Nat) : Except Fault Span := do
  return (← node arena first).span.cover (← node arena last).span

def expectation : TokenKind → Expectation
  | .identifier => .identifier
  | .symbol fixed => .symbol fixed
  | kind => .described ("'" ++ kind.text ++ "'")

def unexpected (what : Expectation) (token : Placed) : SyntaxError :=
  .unexpected what token.kind token.span

section Reader

variable (source : List Char) (ending : Placed)

def expect (kind : TokenKind) (state : State) : Step Placed state :=
  match state with
  | ⟨[], _⟩ => .refused (unexpected (expectation kind) ending)
  | ⟨token :: rest, arena⟩ =>
    if token.kind = kind then .read token ⟨rest, arena⟩ .one
    else .refused (unexpected (expectation kind) token)

def name (token : Placed) : Except Fault Name := do
  return ⟨String.ofList (← slice source token.span), token.span.start⟩

def parameters (arena : Arena) : (tokens : List Placed) → Step (List Name) ⟨tokens, arena⟩
  | [] => .refused (unexpected (.symbol .arrow) ending)
  | token :: rest =>
    if token.kind = .identifier then
      check (name source token) fun param =>
        (parameters arena rest).andThen fun more state shorter =>
          .read (param :: more) state shorter.step
    else if token.kind = .symbol .arrow then .read [] ⟨rest, arena⟩ .one
    else .refused (unexpected (.symbol .arrow) token)

mutual

def term (state : State) : Step Nat state :=
  match state with
  | ⟨[], _⟩ => .refused (unexpected .expression ending)
  | ⟨token :: rest, arena⟩ =>
    match token.kind with
    | .symbol .kwUnit | .symbol .kwTrue | .symbol .kwFalse | .integer | .decimal | .quoted =>
      constant source token ⟨rest, arena⟩ .one
    | .identifier =>
      check (name source token) fun name =>
        push (.name name.text) token.span ⟨rest, arena⟩ .one
    | .symbol .leftBrace =>
      (items ⟨rest, arena⟩).andThen fun found state shorter =>
        check (range token.span.start found.2.span.stop) fun span =>
          push (.list found.1) span state shorter.step
    | .symbol .kwLet =>
      (bindings ⟨rest, arena⟩).andThen fun bound state₁ shorter₁ =>
        (expect ending (.symbol .kwIn) state₁).andThen fun _ state₂ shorter₂ =>
          (expression 0 state₂).andThen fun body state₃ shorter₃ =>
            enclose token.span.start body (.letIn bound body) state₃
              (shorter₃.trans (shorter₂.trans shorter₁.step))
    | .symbol .kwFun =>
      (expect ending .identifier ⟨rest, arena⟩).andThen fun token₁ state₁ shorter₁ =>
        check (name source token₁) fun first =>
          (parameters source ending state₁.arena state₁.rest).andThen fun more state₂ shorter₂ =>
            (expression 0 state₂).andThen fun body state₃ shorter₃ =>
              functions token.span.start (first :: more) body state₃
                (shorter₃.trans (shorter₂.trans shorter₁.step))
    | .symbol .kwPrint =>
      (expression 0 ⟨rest, arena⟩).andThen fun operand state shorter =>
        enclose token.span.start operand (.print operand) state shorter.step
    | .symbol .kwIf =>
      (expression 0 ⟨rest, arena⟩).andThen fun condition state₁ shorter₁ =>
        (expect ending (.symbol .kwThen) state₁).andThen fun _ state₂ shorter₂ =>
          (expression 0 state₂).andThen fun yes state₃ shorter₃ =>
            (expect ending (.symbol .kwElse) state₃).andThen fun _ state₄ shorter₄ =>
              (expression 0 state₄).andThen fun no state₅ shorter₅ =>
                enclose token.span.start no (.conditional condition yes no) state₅
                  (shorter₅.trans (shorter₄.trans (shorter₃.trans (shorter₂.trans shorter₁.step))))
    | .symbol .kwNot =>
      (expression UnaryOp.not.power ⟨rest, arena⟩).andThen fun operand state shorter =>
        prefixed .not token.span operand state shorter.step
    | .symbol (.binary .sub) =>
      (expression UnaryOp.negate.power ⟨rest, arena⟩).andThen fun operand state shorter =>
        prefixed .negate token.span operand state shorter.step
    | .symbol .leftParen =>
      (expression 0 ⟨rest, arena⟩).andThen fun body state₁ shorter₁ =>
        (expect ending (.symbol .rightParen) state₁).andThen fun closing state₂ shorter₂ =>
          grouped token.span.start closing.span.stop body state₂ (shorter₂.trans shorter₁.step)
    | _ => .refused (unexpected .expression token)
termination_by (state.rest.length, 0)
decreasing_by all_goals (apply Prod.Lex.left; grind [State.Behind, State.push])

/-- Reads an operand and all that follows it at the least admitted power. -/
def expression (least : Nat) (state : State) : Step Nat state :=
  (term state).andThen fun left behind shorter => continuations state least left behind shorter
termination_by (state.rest.length, 1)

def continuations (origin : State) (least left : Nat) (state : State)
    (shorter : state.Behind origin) : Step Nat origin :=
  match state with
  | ⟨[], arena⟩ => .read left ⟨[], arena⟩ shorter
  | ⟨token :: rest, arena⟩ =>
    match token.kind.continuation with
    | .operator op =>
      if op.power.left < least then .read left ⟨token :: rest, arena⟩ shorter
      else
        (expression op.power.right ⟨rest, arena⟩).andThen fun right state shorter₁ =>
          check (between state.arena left right) fun span =>
            continuations origin least state.arena.size
              (state.push (.binary op token.span left right) span)
              (shorter₁.step.trans shorter)
    | .argument =>
      if Power.application.left < least then .read left ⟨token :: rest, arena⟩ shorter
      else
        (expression Power.application.right ⟨token :: rest, arena⟩).andThen
          fun argument state shorter₁ =>
            check (between state.arena left argument) fun span =>
              continuations origin least state.arena.size
                (state.push (.application left argument) span) (shorter₁.trans shorter)
    | .subscript =>
      (expression 0 ⟨rest, arena⟩).andThen fun index state₁ shorter₁ =>
        (expect ending (.symbol .rightBracket) state₁).andThen fun closing state₂ shorter₂ =>
          check (node state₂.arena left) fun target =>
            check (range target.span.start closing.span.stop) fun span =>
              continuations origin least state₂.arena.size
                (state₂.push (.subscript left index) span)
                (shorter₂.trans (shorter₁.step.trans shorter))
    | .stop => .read left ⟨token :: rest, arena⟩ shorter
    | .misplaced => .refused (unexpected .continuation token)
termination_by (state.rest.length, 2)
decreasing_by
  all_goals first
  | (apply Prod.Lex.right; decide)
  | (apply Prod.Lex.left; grind [State.Behind, State.push])

def items (state : State) : Step (List Nat × Placed) state :=
  match state with
  | ⟨[], _⟩ => .refused (unexpected .expression ending)
  | ⟨token :: rest, arena⟩ =>
    if token.kind = .symbol .rightBrace then
      .read ([], token) ⟨rest, arena⟩ .one
    else
      (expression 0 ⟨token :: rest, arena⟩).andThen fun item state shorter =>
        match state with
        | ⟨[], _⟩ => .refused (unexpected .itemSeparator ending)
        | ⟨separator :: rest₁, arena₁⟩ =>
          if separator.kind = .symbol .comma then
            (items ⟨rest₁, arena₁⟩).andThen fun found state₂ shorter₂ =>
              .read (item :: found.1, found.2) state₂ (shorter₂.step.trans shorter)
          else if separator.kind = .symbol .rightBrace then
            .read ([item], separator) ⟨rest₁, arena₁⟩ (State.Behind.one.trans shorter)
          else .refused (unexpected .itemSeparator separator)
termination_by (state.rest.length, 2)
decreasing_by
  all_goals first
  | (apply Prod.Lex.right; decide)
  | (apply Prod.Lex.left; grind [State.Behind, State.push])

def bindings (state : State) : Step (List LetBinding) state :=
  (expect ending .identifier state).andThen fun token state₁ shorter₁ =>
    (expect ending (.symbol .assign) state₁).andThen fun _ state₂ shorter₂ =>
      (expression 0 state₂).andThen fun value state₃ shorter₃ =>
        check (name source token) fun name =>
          match state₃ with
          | ⟨[], arena⟩ =>
            .read [⟨token.span, name.text, value⟩] ⟨[], arena⟩
              (shorter₃.trans (shorter₂.trans shorter₁))
          | ⟨separator :: rest, arena⟩ =>
            if separator.kind = .symbol .comma then
              (bindings ⟨rest, arena⟩).andThen fun more state₄ shorter₄ =>
                .read (⟨token.span, name.text, value⟩ :: more) state₄
                  (shorter₄.step.trans (shorter₃.trans (shorter₂.trans shorter₁)))
            else
              .read [⟨token.span, name.text, value⟩] ⟨separator :: rest, arena⟩
                (shorter₃.trans (shorter₂.trans shorter₁))
termination_by (state.rest.length, 2)
decreasing_by all_goals (apply Prod.Lex.left; grind [State.Behind, State.push])

end

end Reader

end ClamSyntax.Checked
