import ClamSyntax.Token

namespace ClamSyntax

/-- What should have stood in the place of an unexpected token. -/
inductive Expectation where
  | expression
  /-- an operator, an argument or the end of the expression -/
  | continuation
  | identifier
  | symbol (fixed : Symbol)
  | itemSeparator
  | endOfInput
  /-- a demand in words of its own -/
  | described (words : String)
  deriving DecidableEq, Repr

def Expectation.text : Expectation → String
  | expression => "expression"
  | continuation => "operator or expression terminator"
  | identifier => "identifier"
  | symbol fixed => "'" ++ fixed.spelling ++ "'"
  | itemSeparator => "',' or '\x7d'"
  | endOfInput => "end of input"
  | described words => words

inductive SyntaxError where
  /-- A backslash in a string before a character that no escape has. The first range
  is the string with its quotes, the second the backslash and the character. -/
  | invalidEscape (quoted : Span) (place : Span) (escape : Char)
  | unexpected (expected : Expectation) (found : TokenKind) (place : Span)
  deriving DecidableEq, Repr

namespace SyntaxError

/-- The range that a diagnostic underlines. -/
def span : SyntaxError → Span
  | invalidEscape _ place _ => place
  | unexpected _ _ place => place

def title : SyntaxError → String
  | invalidEscape .. => "invalid escape sequence"
  | unexpected .. => "unexpected token"

def escapeMessage (quoted : String) : String := "invalid escape sequence '" ++ quoted ++ "'"

/-- The message of the error, without a look at the source. -/
def message : SyntaxError → String
  | invalidEscape _ _ escape => escapeMessage ("\\" ++ String.singleton escape)
  | unexpected expected found _ => "expected " ++ expected.text ++ ", got '" ++ found.text ++ "'"

end SyntaxError

end ClamSyntax
