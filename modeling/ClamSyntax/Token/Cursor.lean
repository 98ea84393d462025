import ClamSyntax.Token.Lexer

/-! Reading a source token by token. A cursor looks one token ahead at most and can
be read in three ways, in any order: look, take, and take until the end was yielded. -/

namespace ClamSyntax

/-- A place in a source. `held` is a token that was looked at and not yet taken;
`yieldedEnd` records that iteration has handed out the end token. -/
structure Cursor where
  offset : Nat
  text : List Char
  held : Option Token
  yieldedEnd : Bool

namespace Cursor

def ofSource (source : List Char) : Cursor := ⟨0, source, none, false⟩

/-- Takes the next token; at the end of the source, the end token for ever. -/
def take (cursor : Cursor) : Token × Cursor :=
  match cursor.held with
  | some token => (token, { cursor with held := none })
  | none =>
    let (token, text) := Lexer.next cursor.offset cursor.text
    (token, { cursor with offset := token.stop, text := text })

def look (cursor : Cursor) : Token × Cursor :=
  let (token, after) := cursor.take
  (token, { after with held := some token })

/-- Takes the next token, or nothing once the end token was yielded this way. -/
def yield? (cursor : Cursor) : Option Token × Cursor :=
  if cursor.yieldedEnd then (none, cursor)
  else
    let (token, after) := cursor.take
    (some token, { after with yieldedEnd := token.lexeme == .endOfInput })

end Cursor

end ClamSyntax
