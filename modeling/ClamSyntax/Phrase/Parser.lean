import ClamSyntax.Literal
import ClamSyntax.Phrase
import ClamSyntax.SyntaxError

/-! Reading phrases from tokens by precedence climbing. A term is followed by as many
operators, arguments and subscripts as the least admitted power allows. Every reader
says in its type that it takes at least one token, which is why reading ends; a reader
that fails keeps the pieces it had read and leaves the offending token in place. -/

namespace ClamSyntax

/-- What a lexeme begins where an operand is due. -/
inductive Opening where
  | literal (value : Except Literal.BadEscape Value)
  | name (text : String)
  | list | letIn | function | print | conditional
  | unary (op : UnaryOp)
  | group
  | nothing

def Lexeme.opening (lexeme : Lexeme) : Opening :=
  match Literal.value? lexeme with
  | some value => .literal value
  | none =>
    match lexeme with
    | .identifier text => .name text
    | .symbol .leftBrace => .list
    | .symbol .kwLet => .letIn
    | .symbol .kwFun => .function
    | .symbol .kwPrint => .print
    | .symbol .kwIf => .conditional
    | .symbol .kwNot => .unary .not
    | .symbol (.binary .sub) => .unary .negate
    | .symbol .leftParen => .group
    | _ => .nothing

/-- What a token means behind a finished operand. -/
inductive Continuation where
  | operator (op : BinaryOp)
  | argument | subscript | stop | misplaced
  deriving DecidableEq, Repr

def TokenKind.continuation (kind : TokenKind) : Continuation :=
  match kind.binaryOp? with
  | some op => .operator op
  | none =>
    if kind.opensTerm then .argument
    else if kind = .symbol .leftBracket then .subscript
    else if kind.terminates then .stop
    else .misplaced

namespace Parser

inductive Reason where
  | expected (what : Expectation)
  | badEscape (fault : Literal.BadEscape)
  deriving DecidableEq

/-- A failed reading: the pieces that were read, in source order, and the tokens that
were not, the offending one first. At the end of the source none is left. -/
structure Failure where
  reason : Reason
  pieces : List Piece
  rest : List Token

namespace Failure

/-- The failure of a larger reading that had read these pieces before. -/
def after (failure : Failure) (before : List Piece) : Failure :=
  { failure with pieces := before ++ failure.pieces }

/-- The offending token in a source of the given size. -/
def found (failure : Failure) (size : Nat) : Token := failure.rest.head?.getD (Token.atEnd size)

def error (failure : Failure) (size : Nat) : SyntaxError :=
  let found := failure.found size
  match failure.reason with
  | .expected what => .unexpected what found.kind found.span
  | .badEscape fault =>
    let start := found.start + 1 + fault.offset
    .invalidEscape found.span ⟨start, start + 1 + fault.escape.utf8Size⟩ fault.escape

/-- Whether the offending token stood where a term was due. -/
def atTerm (failure : Failure) : Bool :=
  match failure.reason with
  | .expected .expression => true
  | .expected _ => false
  | .badEscape _ => true

/-- The tokens at which a term began or was due, in source order. -/
def terms (failure : Failure) (size : Nat) : List Token :=
  failure.pieces.foldr (fun piece later => piece.termsBefore later)
    (if failure.atTerm then [failure.found size] else [])

end Failure

/-- The result of reading a value off the head of `origin`. -/
inductive Outcome (α : Type) (origin : List Token) where
  | read (value : α) (rest : List Token) (shorter : rest.length < origin.length)
  | failed (failure : Failure)

def expect (fixed : Symbol) : (tokens : List Token) → Outcome Nat tokens
  | [] => .failed ⟨.expected (.symbol fixed), [], []⟩
  | token :: rest =>
    if token.lexeme = .symbol fixed then .read token.start rest (Nat.lt_succ_self _)
    else .failed ⟨.expected (.symbol fixed), [], token :: rest⟩

def identifier : (tokens : List Token) → Outcome Name tokens
  | [] => .failed ⟨.expected .identifier, [], []⟩
  | token :: rest =>
    match token.lexeme with
    | .identifier text => .read ⟨text, token.start⟩ rest (Nat.lt_succ_self _)
    | _ => .failed ⟨.expected .identifier, [], token :: rest⟩

def parameters : (tokens : List Token) → Outcome (List Name × Nat) tokens
  | [] => .failed ⟨.expected (.symbol .arrow), [], []⟩
  | token :: rest =>
    match token.lexeme with
    | .symbol .arrow => .read ([], token.start) rest (Nat.lt_succ_self _)
    | .identifier text =>
      match parameters rest with
      | .failed failure => .failed (failure.after [.inner token])
      | .read (names, arrow) rest₁ shorter =>
        .read (⟨text, token.start⟩ :: names, arrow) rest₁ (Nat.lt_succ_of_lt shorter)
    | _ => .failed ⟨.expected (.symbol .arrow), [], token :: rest⟩

mutual

/-- Reads one operand: a literal, a name, a bracketed form, a keyword form or a prefix
operation. -/
def term (tokens : List Token) : Outcome Phrase tokens :=
  match tokens with
  | [] => .failed ⟨.expected .expression, [], []⟩
  | token :: rest =>
    match token.lexeme.opening with
    | .literal (.ok value) => .read (.literal token value) rest (Nat.lt_succ_self _)
    | .literal (.error fault) => .failed ⟨.badEscape fault, [], token :: rest⟩
    | .name text => .read (.name ⟨text, token.start⟩) rest (Nat.lt_succ_self _)
    | .list =>
      match items rest with
      | .failed failure => .failed (failure.after [.opening token])
      | .read items rest₁ _ => .read (.list token.start items) rest₁ (by grind)
    | .letIn =>
      match bindings rest with
      | .failed failure => .failed (failure.after [.opening token])
      | .read bindings rest₁ _ =>
        match expect .kwIn rest₁ with
        | .failed failure => .failed (failure.after (.opening token :: bindings.pieces))
        | .read inAt rest₂ _ =>
          match expression 0 rest₂ with
          | .failed failure =>
            .failed (failure.after
              (.opening token :: (bindings.pieces ++ [.inner (Symbol.kwIn.at inAt)])))
          | .read body rest₃ _ =>
            .read (.letIn token.start bindings inAt body) rest₃ (by grind)
    | .function =>
      match identifier rest with
      | .failed failure => .failed (failure.after [.opening token])
      | .read first rest₁ _ =>
        match parameters rest₁ with
        | .failed failure => .failed (failure.after [.opening token, .inner first.token])
        | .read (more, arrow) rest₂ _ =>
          match expression 0 rest₂ with
          | .failed failure =>
            .failed (failure.after
              (.opening token :: .inner first.token :: (more.map (.inner ·.token) ++
                [.inner (Symbol.arrow.at arrow)])))
          | .read body rest₃ _ =>
            .read (.function token.start first more arrow body) rest₃ (by grind)
    | .print =>
      match expression 0 rest with
      | .failed failure => .failed (failure.after [.opening token])
      | .read operand rest₁ _ => .read (.print token.start operand) rest₁ (by grind)
    | .conditional =>
      match expression 0 rest with
      | .failed failure => .failed (failure.after [.opening token])
      | .read condition rest₁ _ =>
        match expect .kwThen rest₁ with
        | .failed failure => .failed (failure.after [.opening token, .complete condition])
        | .read thenAt rest₂ _ =>
          match expression 0 rest₂ with
          | .failed failure =>
            .failed (failure.after
              [.opening token, .complete condition, .inner (Symbol.kwThen.at thenAt)])
          | .read yes rest₃ _ =>
            match expect .kwElse rest₃ with
            | .failed failure =>
              .failed (failure.after
                [.opening token, .complete condition, .inner (Symbol.kwThen.at thenAt),
                  .complete yes])
            | .read elseAt rest₄ _ =>
              match expression 0 rest₄ with
              | .failed failure =>
                .failed (failure.after
                  [.opening token, .complete condition, .inner (Symbol.kwThen.at thenAt),
                    .complete yes, .inner (Symbol.kwElse.at elseAt)])
              | .read no rest₅ _ =>
                .read (.conditional token.start condition thenAt yes elseAt no) rest₅
                  (by grind)
    | .unary op =>
      match expression op.power rest with
      | .failed failure => .failed (failure.after [.opening token])
      | .read operand rest₁ _ => .read (.unary op token.start operand) rest₁ (by grind)
    | .group =>
      match expression 0 rest with
      | .failed failure => .failed (failure.after [.opening token])
      | .read body rest₁ _ =>
        match expect .rightParen rest₁ with
        | .failed failure => .failed (failure.after [.opening token, .complete body])
        | .read closing rest₂ _ => .read (.group token.start body closing) rest₂ (by grind)
    | .nothing => .failed ⟨.expected .expression, [], token :: rest⟩
termination_by (tokens.length, 0)

/-- Reads an operand and all that follows it at the least admitted power. -/
def expression (least : Nat) (tokens : List Token) : Outcome Phrase tokens :=
  match term tokens with
  | .failed failure => .failed failure
  | .read left rest shorter => continuations tokens least left rest shorter
termination_by (tokens.length, 1)

/-- Extends a finished operand by the operators, arguments and subscripts behind it, as
far as the least admitted power allows. -/
def continuations (origin : List Token) (least : Nat) (left : Phrase) (tokens : List Token)
    (shorter : tokens.length < origin.length) : Outcome Phrase origin :=
  match tokens with
  | [] => .read left [] shorter
  | token :: rest =>
    match token.kind.continuation with
    | .operator op =>
      if op.power.left < least then .read left (token :: rest) shorter
      else
        match expression op.power.right rest with
        | .failed failure => .failed (failure.after [.complete left, .inner token])
        | .read right rest₁ _ =>
          continuations origin least (.binary left op token.start right) rest₁ (by grind)
    | .argument =>
      if Power.application.left < least then .read left (token :: rest) shorter
      else
        match expression Power.application.right (token :: rest) with
        | .failed failure => .failed (failure.after [.complete left])
        | .read argument rest₁ _ =>
          continuations origin least (.application left argument) rest₁ (by grind)
    | .subscript =>
      match expression 0 rest with
      | .failed failure => .failed (failure.after [.complete left, .inner token])
      | .read index rest₁ _ =>
        match expect .rightBracket rest₁ with
        | .failed failure =>
          .failed (failure.after [.complete left, .inner token, .complete index])
        | .read closing rest₂ _ =>
          continuations origin least (.subscript left token.start index closing) rest₂
            (by grind)
    | .stop => .read left (token :: rest) shorter
    | .misplaced => .failed ⟨.expected .continuation, [.complete left], token :: rest⟩
termination_by (tokens.length, 2)

/-- Reads the items of a list up to its closing brace; a comma may stand behind the
last item. -/
def items (tokens : List Token) : Outcome Items tokens :=
  match expect .rightBrace tokens with
  | .read closing rest shorter => .read (.close closing) rest shorter
  | .failed _ =>
    match expression 0 tokens with
    | .failed failure => .failed failure
    | .read item rest₁ _ =>
      match expect .comma rest₁ with
      | .read comma rest₂ _ =>
        match items rest₂ with
        | .failed failure =>
          .failed (failure.after [.complete item, .inner (Symbol.comma.at comma)])
        | .read more rest₃ _ => .read (.more item comma more) rest₃ (by grind)
      | .failed _ =>
        match expect .rightBrace rest₁ with
        | .read closing rest₂ _ => .read (.last item closing) rest₂ (by grind)
        | .failed _ => .failed ⟨.expected .itemSeparator, [.complete item], rest₁⟩
termination_by (tokens.length, 2)

def bindings (tokens : List Token) : Outcome Bindings tokens :=
  match identifier tokens with
  | .failed failure => .failed failure
  | .read name rest₁ _ =>
    match expect .assign rest₁ with
    | .failed failure => .failed (failure.after [.inner name.token])
    | .read assign rest₂ _ =>
      match expression 0 rest₂ with
      | .failed failure =>
        .failed (failure.after [.inner name.token, .inner (Symbol.assign.at assign)])
      | .read value rest₃ _ =>
        match expect .comma rest₃ with
        | .failed _ => .read (.last name assign value) rest₃ (by grind)
        | .read comma rest₄ _ =>
          match bindings rest₄ with
          | .failed failure =>
            .failed (failure.after
              [.inner name.token, .inner (Symbol.assign.at assign), .complete value,
                .inner (Symbol.comma.at comma)])
          | .read more rest₅ _ =>
            .read (.more name assign value comma more) rest₅ (by grind)
termination_by (tokens.length, 2)

end

/-- Reads one expression and requires the tokens to end behind it. -/
def program (tokens : List Token) : Except Failure Phrase :=
  match expression 0 tokens with
  | .failed failure => .error failure
  | .read phrase [] _ => .ok phrase
  | .read phrase (token :: rest) _ =>
    .error ⟨.expected .endOfInput, [.complete phrase], token :: rest⟩

end Parser

end ClamSyntax
