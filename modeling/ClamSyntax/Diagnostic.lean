import ClamSyntax.SyntaxError

namespace ClamSyntax

/-- One line of a source: its number from 1, the byte offset of its start, and its text
without the newline. -/
structure SourceLine where
  number : Nat
  start : Nat
  text : List Char
  deriving DecidableEq, Repr

namespace SourceLine

/-- The offset of the newline that ends the line, or of the end of the source. -/
def stop (line : SourceLine) : Nat := line.start + Text.size line.text

/-- Finds the line that holds an offset in a text that stands at offset `here`, behind
the reversed beginning `before` of line `number`. An offset past the end lies on the
last line. -/
def locateFrom (number start : Nat) (before : List Char) (here offset : Nat) :
    List Char → SourceLine
  | [] => ⟨number, start, before.reverse⟩
  | c :: rest =>
    if c = '\n' then
      if offset ≤ here then ⟨number, start, before.reverse⟩
      else locateFrom (number + 1) (here + 1) [] (here + 1) offset rest
    else locateFrom number start (c :: before) (here + c.utf8Size) offset rest

/-- The line of the source that holds the byte at an offset; a newline belongs to the
line that it ends. -/
def locate (source : List Char) (offset : Nat) : SourceLine :=
  locateFrom 1 0 [] 0 offset source

/-- The line as it is shown: without a carriage return at its end. -/
def visible (line : SourceLine) : List Char :=
  if line.text.getLast? = some '\r' then line.text.dropLast else line.text

end SourceLine

namespace Diagnostic

/-- The message of an error, quoting an escape from the source; a range that names no
part of the source quotes nothing. -/
def message (source : List Char) : SyntaxError → String
  | .invalidEscape _ place _ =>
    SyntaxError.escapeMessage (String.ofList ((Text.slice? source place).getD []))
  | error => error.message

/-- The bytes before the carets on the line: those before the start of the range, as
far as they lie on the line. -/
def column (line : SourceLine) (span : Span) : Nat :=
  max line.start (min span.start line.stop) - line.start

/-- The number of carets: up to the end of the range or of the visible line, and at
least one. -/
def carets (line : SourceLine) (span : Span) : Nat :=
  let stop := min span.stop (line.start + Text.size line.visible)
  max 1 (stop - (line.start + column line span))

/-- The report of an error in a named source: headline, place, line, carets, message,
each on a line of its own. -/
def render (source : List Char) (file : String) (error : SyntaxError) : String :=
  let line := SourceLine.locate source error.span.start
  let column := column line error.span
  "error: " ++ error.title ++ "\n --> " ++ file ++ ":" ++ toString line.number ++ ":"
    ++ toString column ++ "\n" ++ String.ofList line.visible ++ "\n"
    ++ String.ofList (List.replicate column ' ')
    ++ String.ofList (List.replicate (carets line error.span) '^') ++ "\n"
    ++ message source error ++ "\n"

end Diagnostic

end ClamSyntax
