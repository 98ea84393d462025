import ClamSyntax.Token
import ClamSyntax.Value

/-! Expressions as written. A phrase keeps every token of its expression, the
parentheses and separators included, by the offset at which it stands; `tokens` lists
them in source order. A phrase never has a token out of place: what is fixed by the
form of the phrase is not stored. -/

namespace ClamSyntax

structure Name where
  text : String
  start : Nat
  deriving DecidableEq, Repr

namespace Name

def token (name : Name) : Token := ⟨.identifier name.text, name.start⟩

def span (name : Name) : Span := name.token.span

end Name

mutual

/-- An expression as written. The numbers are the offsets of the tokens that the form
of the phrase fixes, in source order. -/
inductive Phrase where
  | literal (token : Token) (value : Value)
  | name (name : Name)
  /-- `{ items }` -/
  | list (opening : Nat) (items : Items)
  /-- `let bindings in body` -/
  | letIn (opening : Nat) (bindings : Bindings) (inAt : Nat) (body : Phrase)
  /-- `fun first more => body` -/
  | function (opening : Nat) (first : Name) (more : List Name) (arrow : Nat) (body : Phrase)
  /-- `print operand` -/
  | print (opening : Nat) (operand : Phrase)
  /-- `if condition then yes else no` -/
  | conditional (opening : Nat) (condition : Phrase) (thenAt : Nat) (yes : Phrase)
      (elseAt : Nat) (no : Phrase)
  | unary (op : UnaryOp) (opening : Nat) (operand : Phrase)
  /-- `( body )` -/
  | group (opening : Nat) (body : Phrase) (closing : Nat)
  | binary (left : Phrase) (op : BinaryOp) (place : Nat) (right : Phrase)
  /-- `function argument` -/
  | application (function argument : Phrase)
  /-- `target [ index ]` -/
  | subscript (target : Phrase) (opening : Nat) (index : Phrase) (closing : Nat)

/-- What stands between the braces of a list, and the closing brace. -/
inductive Items where
  | close (closing : Nat)
  | last (item : Phrase) (closing : Nat)
  | more (item : Phrase) (comma : Nat) (rest : Items)

/-- The bindings between `let` and `in`. -/
inductive Bindings where
  | last (name : Name) (assign : Nat) (value : Phrase)
  | more (name : Name) (assign : Nat) (value : Phrase) (comma : Nat) (rest : Bindings)

end

def UnaryOp.symbol : UnaryOp → Symbol
  | not => .kwNot
  | negate => .binary .sub

def Symbol.at (fixed : Symbol) (start : Nat) : Token := ⟨.symbol fixed, start⟩

mutual

/-- Every token of the phrase, in source order. -/
def Phrase.tokens : Phrase → List Token
  | .literal token _ => [token]
  | .name name => [name.token]
  | .list opening items => Symbol.leftBrace.at opening :: items.tokens
  | .letIn opening bindings inAt body =>
    Symbol.kwLet.at opening :: (bindings.tokens ++ Symbol.kwIn.at inAt :: body.tokens)
  | .function opening first more arrow body =>
    Symbol.kwFun.at opening :: first.token ::
      (more.map Name.token ++ Symbol.arrow.at arrow :: body.tokens)
  | .print opening operand => Symbol.kwPrint.at opening :: operand.tokens
  | .conditional opening condition thenAt yes elseAt no =>
    Symbol.kwIf.at opening :: (condition.tokens ++ Symbol.kwThen.at thenAt ::
      (yes.tokens ++ Symbol.kwElse.at elseAt :: no.tokens))
  | .unary op opening operand => op.symbol.at opening :: operand.tokens
  | .group opening body closing =>
    Symbol.leftParen.at opening :: (body.tokens ++ [Symbol.rightParen.at closing])
  | .binary left op place right => left.tokens ++ (Symbol.binary op).at place :: right.tokens
  | .application function argument => function.tokens ++ argument.tokens
  | .subscript target opening index closing =>
    target.tokens ++ Symbol.leftBracket.at opening ::
      (index.tokens ++ [Symbol.rightBracket.at closing])

def Items.tokens : Items → List Token
  | .close closing => [Symbol.rightBrace.at closing]
  | .last item closing => item.tokens ++ [Symbol.rightBrace.at closing]
  | .more item comma rest => item.tokens ++ Symbol.comma.at comma :: rest.tokens

def Bindings.tokens : Bindings → List Token
  | .last name assign value => name.token :: Symbol.assign.at assign :: value.tokens
  | .more name assign value comma rest =>
    name.token :: Symbol.assign.at assign ::
      (value.tokens ++ Symbol.comma.at comma :: rest.tokens)

end

mutual

/-- Puts the tokens at which a term begins, in source order, in front of others. They are
the tokens that stand where an operand was due. -/
def Phrase.termsBefore (later : List Token) : Phrase → List Token
  | .literal token _ => token :: later
  | .name name => name.token :: later
  | .list opening items => Symbol.leftBrace.at opening :: items.termsBefore later
  | .letIn opening bindings _ body =>
    Symbol.kwLet.at opening :: bindings.termsBefore (body.termsBefore later)
  | .function opening _ _ _ body => Symbol.kwFun.at opening :: body.termsBefore later
  | .print opening operand => Symbol.kwPrint.at opening :: operand.termsBefore later
  | .conditional opening condition _ yes _ no =>
    Symbol.kwIf.at opening :: condition.termsBefore (yes.termsBefore (no.termsBefore later))
  | .unary op opening operand => op.symbol.at opening :: operand.termsBefore later
  | .group opening body _ => Symbol.leftParen.at opening :: body.termsBefore later
  | .binary left _ _ right => left.termsBefore (right.termsBefore later)
  | .application function argument => function.termsBefore (argument.termsBefore later)
  | .subscript target _ index _ => target.termsBefore (index.termsBefore later)

def Items.termsBefore (later : List Token) : Items → List Token
  | .close _ => later
  | .last item _ => item.termsBefore later
  | .more item _ rest => item.termsBefore (rest.termsBefore later)

def Bindings.termsBefore (later : List Token) : Bindings → List Token
  | .last _ _ value => value.termsBefore later
  | .more _ _ value _ rest => value.termsBefore (rest.termsBefore later)

end

/-- A part of an expression that was left unfinished. -/
inductive Piece where
  /-- a token at which a term begins -/
  | opening (token : Token)
  /-- any other token -/
  | inner (token : Token)
  | complete (phrase : Phrase)

namespace Piece

def tokens : Piece → List Token
  | opening token => [token]
  | inner token => [token]
  | complete phrase => phrase.tokens

def termsBefore (later : List Token) : Piece → List Token
  | opening token => token :: later
  | inner _ => later
  | complete phrase => phrase.termsBefore later

end Piece

/-- The bindings as pieces, for a `let` that is left unfinished after them. -/
def Bindings.pieces : Bindings → List Piece
  | .last name assign value =>
    [.inner name.token, .inner (Symbol.assign.at assign), .complete value]
  | .more name assign value comma rest =>
    .inner name.token :: .inner (Symbol.assign.at assign) :: .complete value ::
      .inner (Symbol.comma.at comma) :: rest.pieces

end ClamSyntax
