import ClamSyntax.Proofs.Parser.Reading
import ClamSyntax.Token.Cursor

/-! Reading with a meter. Here the readers take one token after the other off the cursor, look at
the next one where they have to choose, and go round in loops. The meter keeps every token that
was taken, and what each term, each expression and each turn of a loop took; `metered_recorded` and
`loop_recorded` say that it misses none of these laps. An allowance says how deep expressions may
nest and how often a loop may turn; a reader that has used it up gives in. -/

namespace ClamSyntax

open ClamSyntax.Parser

/-- What is metered: a reader, or the turns of the loop in one. -/
inductive Stretch where
  | term | expression
  | continuation | item | parameter | binding
  deriving DecidableEq, Repr

/-- The tokens that a reader took which succeeded, or a turn of a loop behind which the loop went
on. -/
structure Lap where
  stretch : Stretch
  tokens : List Token

/-- A cursor, the tokens that were taken off it, and the laps. -/
structure Meter where
  cursor : Cursor
  taken : List Token
  laps : List Lap

def Meter.on (cursor : Cursor) : Meter := ⟨cursor, [], []⟩

/-- Records what was taken since an earlier state of the meter. -/
def Meter.note (meter earlier : Meter) (stretch : Stretch) : Meter :=
  { meter with laps := meter.laps ++ [⟨stretch, meter.taken.drop earlier.taken.length⟩] }

inductive Halt where
  | refused (error : SyntaxError)
  | exhausted
  deriving DecidableEq

def Metered (α : Type) := Meter → Except Halt α × Meter

inductive Turn (σ β : Type) where
  | again (state : σ)
  | leave (value : β)

namespace Metered

instance : Monad Metered where
  pure value meter := (.ok value, meter)
  bind reader next meter :=
    match reader meter with
    | (.ok value, after) => next value after
    | (.error halt, after) => (.error halt, after)

def take : Metered Token := fun meter =>
  let (token, cursor) := meter.cursor.take
  (.ok token, { meter with cursor := cursor, taken := meter.taken ++ [token] })

def look : Metered Token := fun meter =>
  let (token, cursor) := meter.cursor.look
  (.ok token, { meter with cursor := cursor })

/-- Refuses a token, which was taken. -/
def refuse (reason : Reason) (token : Token) : Metered α := fun meter =>
  (.error (.refused ((Stop.mk reason [token]).error token.stop)), meter)

def exhausted : Metered α := fun meter => (.error .exhausted, meter)

/-- Records what the reader takes if it succeeds. -/
def metered (stretch : Stretch) (reader : Metered α) : Metered α := fun meter =>
  match reader meter with
  | (.ok value, after) => (.ok value, after.note meter stretch)
  | (.error halt, after) => (.error halt, after)

/-- Turns until a turn leaves, and records what each of the others takes. -/
def loop (stretch : Stretch) (turn : σ → Metered (Turn σ β)) : Nat → σ → Metered β
  | 0, _ => exhausted
  | turns + 1, state => fun meter =>
    match turn state meter with
    | (.ok (.again next), after) => loop stretch turn turns next (after.note meter stretch)
    | (.ok (.leave value), after) => (.ok value, after)
    | (.error halt, after) => (.error halt, after)

def symbol (fixed : Symbol) : Metered Nat := do
  let token ← take
  if token.lexeme = .symbol fixed then return token.start
  else refuse (.expected (.symbol fixed)) token

def name : Metered Name := do
  let token ← take
  match token.lexeme with
  | .identifier text => return ⟨text, token.start⟩
  | _ => refuse (.expected .identifier) token

def parameter (before : List Name) : Metered (Turn (List Name) (List Name)) := do
  let token ← look
  match token.lexeme with
  | .identifier text => do
    let token ← take
    return .again (before ++ [⟨text, token.start⟩])
  | _ => return .leave before

/-- What stands behind an item: a comma, or the end of the list. The state of the loop puts the
items before it in front of others. -/
def separator (before : Items → Items) (item : Phrase) :
    Metered (Turn (Items → Items) Items) := do
  let token ← take
  if token.lexeme = .symbol .comma then
    return .again fun later => before (.more item token.start later)
  else if token.lexeme = .symbol .rightBrace then return .leave (before (.last item token.start))
  else refuse (.expected .itemSeparator) token

section Forms

-- how expressions one level deeper are read, and how often a loop may turn
variable (nested : Nat → Metered Phrase) (turns : Nat)

def item (before : Items → Items) : Metered (Turn (Items → Items) Items) := do
  let token ← look
  if token.lexeme = .symbol .rightBrace then
    let closing ← take
    return .leave (before (.close closing.start))
  else
    let item ← nested 0
    separator before item

def binding (before : Bindings → Bindings) : Metered (Turn (Bindings → Bindings) Bindings) := do
  let name ← name
  let assign ← symbol .assign
  let value ← nested 0
  let separator ← look
  if separator.lexeme = .symbol .comma then
    let comma ← take
    return .again fun later => before (.more name assign value comma.start later)
  else return .leave (before (.last name assign value))

def literal (value : Except Literal.BadEscape Value) : Metered Phrase := do
  let token ← take
  match value with
  | .ok value => return .literal token value
  | .error fault => refuse (.badEscape fault) token

def list : Metered Phrase := do
  let opening ← take
  let items ← loop .item (item nested) turns id
  return .list opening.start items

def letIn : Metered Phrase := do
  let opening ← take
  let bindings ← loop .binding (binding nested) turns id
  let inAt ← symbol .kwIn
  let body ← nested 0
  return .letIn opening.start bindings inAt body

def function : Metered Phrase := do
  let opening ← take
  let first ← name
  let more ← loop .parameter parameter turns []
  let arrow ← symbol .arrow
  let body ← nested 0
  return .function opening.start first more arrow body

def print : Metered Phrase := do
  let opening ← take
  let operand ← nested 0
  return .print opening.start operand

def conditional : Metered Phrase := do
  let opening ← take
  let condition ← nested 0
  let thenAt ← symbol .kwThen
  let yes ← nested 0
  let elseAt ← symbol .kwElse
  let no ← nested 0
  return .conditional opening.start condition thenAt yes elseAt no

def unary (op : UnaryOp) : Metered Phrase := do
  let opening ← take
  let operand ← nested op.power
  return .unary op opening.start operand

def group : Metered Phrase := do
  let opening ← take
  let body ← nested 0
  let closing ← symbol .rightParen
  return .group opening.start body closing

def form (token : Token) : Metered Phrase :=
  match token.lexeme.opening with
  | .literal value => literal value
  | .name text => do
    let token ← take
    return .name ⟨text, token.start⟩
  | .list => list nested turns
  | .letIn => letIn nested turns
  | .function => function nested turns
  | .print => print nested
  | .conditional => conditional nested
  | .unary op => unary nested op
  | .group => group nested
  | .nothing => do
    let token ← take
    refuse (.expected .expression) token

def term : Metered Phrase := metered .term do
  let token ← look
  form nested turns token

/-- What extends a finished operand, by the token that stands there. -/
def continuation (least : Nat) (left : Phrase) : Metered (Turn Phrase Phrase) := do
  let token ← look
  match token.kind.continuation with
  | .operator op =>
    if op.power.left < least then return .leave left
    else
      let place ← take
      let right ← nested op.power.right
      return .again (.binary left op place.start right)
  | .argument =>
    if Power.application.left < least then return .leave left
    else
      let argument ← nested Power.application.right
      return .again (.application left argument)
  | .subscript => do
    let opening ← take
    let index ← nested 0
    let closing ← symbol .rightBracket
    return .again (.subscript left opening.start index closing)
  | .stop => return .leave left
  | .misplaced => do
    let token ← take
    refuse (.expected .continuation) token

end Forms

/-- An operand and all that follows it at the least admitted power. Expressions nest no deeper
than the allowance, this one included, and no loop in it turns that often. -/
def expression : Nat → Nat → Metered Phrase
  | 0, _ => exhausted
  | allowance + 1, least => metered .expression do
    let left ← term (expression allowance) allowance
    loop .continuation (continuation (expression allowance) least) allowance left

end Metered

end ClamSyntax
