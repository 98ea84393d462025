import ClamSyntax.Arena.Outline
import ClamSyntax.SyntaxError

namespace ClamSyntax

/-- How much of the detail an event belongs to; later levels are finer. -/
inductive Level where
  | error | warn | info | debug | trace
  deriving DecidableEq, Repr

namespace Level

def rank : Level → Nat
  | error => 1
  | warn => 2
  | info => 3
  | debug => 4
  | trace => 5

def label : Level → String
  | error => "ERROR"
  | warn => " WARN"
  | info => " INFO"
  | debug => "DEBUG"
  | trace => "TRACE"

end Level

inductive Event where
  | sourceRead (path : String) (bytes : Nat)
  /-- a token was met where a term was due -/
  | term (kind : TokenKind) (start : Nat)
  | parsed (nodes root : Nat)
  | failed (message : String)
  | fileAccepted (file : String) (nodes : Nat)
  | fileRejected (file : String) (message : String)
  | lineAccepted (nodes : Nat)
  deriving DecidableEq, Repr

namespace Event

def level : Event → Level
  | term .. => .trace
  | fileAccepted .. | fileRejected .. => .info
  | sourceRead .. | parsed .. | failed .. | lineAccepted .. => .debug

def origin : Event → String
  | term .. | parsed .. | failed .. => "clam_parse::parser"
  | sourceRead .. | fileAccepted .. | fileRejected .. => "clam_cli::commands"
  | lineAccepted .. => "clam_cli::repl"

def headline : Event → String
  | sourceRead .. => "read source"
  | term .. => "term"
  | parsed .. => "parsed expression"
  | failed .. => "parse failed"
  | fileAccepted .. => "parse ok"
  | fileRejected .. => "parse failed"
  | lineAccepted .. => "repl parse"

/-- A file's name in a field stands in quotes. -/
def quotedFile (file : String) : String := String.ofList (Outline.quoting.quote file.toList)

def fields : Event → List (String × String)
  | sourceRead path bytes => [("path", path), ("bytes", toString bytes)]
  | term kind start => [("kind", kind.text), ("start", toString start)]
  | parsed nodes root => [("nodes", toString nodes), ("root", "#" ++ toString root)]
  | failed message => [("error", message)]
  | fileAccepted file nodes => [("file", quotedFile file), ("nodes", toString nodes)]
  | fileRejected file message => [("file", quotedFile file), ("error", message)]
  | lineAccepted nodes => [("nodes", toString nodes)]

def line (event : Event) : String :=
  event.level.label ++ " " ++ event.origin ++ ": " ++ event.headline ++
    event.fields.foldr (fun (name, value) rest => " " ++ name ++ "=" ++ value ++ rest) "\n"

end Event

/-- Shows the events of the origins that begin with `scope`, up to a level; none if there
is no level. -/
structure LogRule where
  scope : String
  level : Option Level
  deriving DecidableEq, Repr

/-- The rules by which events are shown, in the order in which they were given. -/
structure LogFilter where
  rules : List LogRule
  deriving DecidableEq, Repr

namespace LogFilter

/-- The rule of the longest scope that the origin begins with; of equal ones the last. -/
def rule? (filter : LogFilter) (origin : String) : Option LogRule :=
  filter.rules.foldl
    (fun best rule =>
      if rule.scope.toList.isPrefixOf origin.toList then
        match best with
        | some other => if other.scope.length ≤ rule.scope.length then some rule else best
        | none => some rule
      else best)
    none

def shows (filter : LogFilter) (event : Event) : Bool :=
  match filter.rule? event.origin with
  | some ⟨_, some level⟩ => event.level.rank ≤ level.rank
  | _ => false

/-- Two rules, for the parser and for the commands. -/
def upTo (level : Level) : LogFilter :=
  ⟨[⟨"clam_cli", some level⟩, ⟨"clam_parse", some level⟩]⟩

def ofVerbosity : Nat → LogFilter
  | 0 => upTo .warn
  | 1 => upTo .debug
  | _ => upTo .trace

/-- A level by name, in letters of either case; `off` is no level. -/
def level? (word : String) : Option (Option Level) :=
  match word.toLower with
  | "off" => some none
  | "error" => some (some .error)
  | "warn" => some (some .warn)
  | "info" => some (some .info)
  | "debug" => some (some .debug)
  | "trace" => some (some .trace)
  | _ => none

/-- A rule in words: a level for every origin, or `scope=level`. -/
def ruleOf? (words : List Char) : Option LogRule :=
  match words.splitOn '=' with
  | [word] => (level? (String.ofList word)).map fun level => ⟨"", level⟩
  | [scope, word] => (level? (String.ofList word)).map fun level => ⟨String.ofList scope, level⟩
  | _ => none

/-- A filter in words: rules separated by commas, and without any rule nothing is shown. -/
def ofText? (text : String) : Option LogFilter :=
  (((text.toList.splitOn ',').filter (· ≠ [])).mapM ruleOf?).map LogFilter.mk

end LogFilter

/-- What a command does to the outside: text for the reader, complaints, and events of which the
log shows some. -/
inductive Effect where
  | print (text : String)
  | complain (text : String)
  | report (event : Event)
  deriving DecidableEq, Repr

namespace Effect

/-- What is written to the standard output. -/
def output (effects : List Effect) : String :=
  String.join (effects.map fun
    | print text => text
    | _ => "")

/-- What is written to the standard error: complaints and the shown events, in time. -/
def errors (filter : LogFilter) (effects : List Effect) : String :=
  String.join (effects.map fun
    | complain text => text
    | report event => if filter.shows event then event.line else ""
    | print _ => "")

def complaints (effects : List Effect) : String := errors ⟨[]⟩ effects

end Effect

end ClamSyntax
