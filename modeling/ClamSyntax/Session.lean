import ClamSyntax.Arena.Build
import ClamSyntax.Phrase.Parser
import ClamSyntax.Token.Lexer

/-! Reading expressions from one source into one store, call by call. A call that fails
keeps the finished parts of what it read. `parse` is a single call on a whole source. -/

namespace ClamSyntax

/-- The tokens not yet read, the size of the source, and the nodes so far. -/
structure Session where
  rest : List Token
  size : Nat
  arena : Arena

/-- The answer to a call: the root or the error, the tokens at which a term began or was
due, and the session afterwards. -/
structure Session.Answer where
  result : Except SyntaxError Nat
  terms : List Token
  session : Session

namespace Session

def ofSource (source : List Char) : Session := ⟨Lexer.tokens source, Text.size source, .empty⟩

/-- Stores a phrase that was read. -/
def accept (session : Session) (phrase : Phrase) (rest : List Token) : Answer :=
  let stored := phrase.store session.arena none
  ⟨.ok stored.root, phrase.termsBefore [], { session with rest := rest, arena := stored.arena }⟩

/-- Stores the finished parts of a failed reading; the offending token is used up. -/
def refuse (session : Session) (failure : Parser.Failure) : Answer :=
  ⟨.error (failure.error session.size), failure.terms session.size,
    { session with
      rest := failure.rest.tail
      arena := Piece.storeAll session.arena failure.pieces }⟩

def term (session : Session) : Answer :=
  match Parser.term session.rest with
  | .read phrase rest _ => session.accept phrase rest
  | .failed failure => session.refuse failure

/-- Reads as much of an expression as the least admitted power allows. -/
def expression (session : Session) (least : Nat) : Answer :=
  match Parser.expression least session.rest with
  | .read phrase rest _ => session.accept phrase rest
  | .failed failure => session.refuse failure

def program (session : Session) : Answer :=
  match Parser.program session.rest with
  | .ok phrase => session.accept phrase []
  | .error failure => session.refuse failure

end Session

/-- The nodes and the root of the expression that a source is. -/
def parse (source : List Char) : Except SyntaxError (Arena × Nat) :=
  let answer := (Session.ofSource source).program
  answer.result.map fun root => (answer.session.arena, root)

end ClamSyntax
