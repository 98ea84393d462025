import ClamSyntax.Arena.Tree
import ClamSyntax.Command.SourceFile
import ClamSyntax.Diagnostic
import ClamSyntax.Session

namespace ClamSyntax

/-- Reads a whole source, with the events of doing so. -/
def examine (source : List Char) : List Effect × Except SyntaxError (Arena × Nat) :=
  let answer := (Session.ofSource source).program
  let terms := answer.terms.map fun token => Effect.report (.term token.kind token.start)
  let arena := answer.session.arena
  match answer.result with
  | .ok root => (terms ++ [.report (.parsed arena.size root)], .ok (arena, root))
  | .error error => (terms ++ [.report (.failed error.message)], .error error)

/-- Prints the tree of a source in the given format, or complains about its error; says
whether there was none. -/
def showTree (source : String) (file : String) (format : Format) : List Effect × Bool :=
  match examine source.toList with
  | (effects, .ok (arena, root)) =>
    let shown :=
      match arena.format root format with
      | .ok text => Effect.print (text ++ "\n")
      | .error broken => Effect.complain (broken.message ++ "\n")
    (effects ++ [.report (.fileAccepted file arena.size), shown], true)
  | (effects, .error error) =>
    (effects ++
      [.report (.fileRejected file error.message),
        .complain (Diagnostic.render source.toList file error)],
      false)

/-- Kind in a column of sixteen, range, and text in quotes. -/
def Token.describe (token : Token) : List Char :=
  let kind := token.kind.text.toList
  kind ++ List.replicate (16 - kind.length) ' ' ++
    (" @ " ++ toString token.start ++ ".." ++ toString token.stop ++ " ").toList ++
    Outline.quoting.quote token.text ++ ['\n']

/-- The lines of all tokens of a source, the end included. -/
def Lexer.listing (source : List Char) : String :=
  String.ofList ((Lexer.tokensToEnd source).flatMap Token.describe)

def showTokens (source : String) : List Effect := [.print (Lexer.listing source.toList)]

end ClamSyntax
