import ClamSyntax.Command.Arguments
import ClamSyntax.Command.Repl

namespace ClamSyntax

/-- What the program finds outside: the bytes behind a path, and the standard input. -/
structure Surroundings where
  read : String → Except ReadFailure ByteArray
  input : List UInt8

/-- What was done, and the exit code. -/
structure Completed where
  effects : List Effect
  code : Nat

namespace Completed

def success (effects : List Effect) : Completed := ⟨effects, 0⟩

def abort (effects : List Effect) (message : String) : Completed :=
  ⟨effects ++ [.complain ("Error: " ++ message ++ "\n")], 1⟩

def ofDialogue (effects : List Effect) : Repl.Next → Completed
  | .breakOff => abort effects invalidUtf8
  | _ => success effects

end Completed

def versionText : String := "clam 0.1.0\n"

def helpText : String :=
  "Clam: parse and inspect Clam expressions\n\nUsage: clam [OPTIONS] <COMMAND>\n\n" ++
    "Commands:\n  parse <FILE> [--format sexpr|pretty|json]\n  lex <FILE>\n  repl\n\n" ++
    "Options:\n  -v, --verbose\n  -h, --help\n  -V, --version\n"

def withSource (path : String) (found : Except ReadFailure ByteArray)
    (command : String → List Effect × Bool) : Completed :=
  match acceptSource path found with
  | .error error => .abort [] error.message
  | .ok source =>
    let (effects, fine) := command source
    ⟨.report (.sourceRead path source.utf8ByteSize) :: effects, if fine then 0 else 1⟩

def Request.run (surroundings : Surroundings) : Request → Completed
  | .help => .success [.print helpText]
  | .version => .success [.print versionText]
  | .parse file format =>
    withSource file (surroundings.read file) fun source => showTree source file format
  | .lex file =>
    withSource file (surroundings.read file) fun source => (showTokens source, true)
  | .repl =>
    let (effects, next) := Repl.run surroundings.input
    .ofDialogue effects next

/-- A command line that is not understood is answered with code 2. -/
def UsageError.completed (error : UsageError) : Completed :=
  ⟨[.complain ("error: " ++ error.message ++ "\n\nFor more information, try '--help'.\n")], 2⟩

/-- The filter for the log: the one asked for in words, if they are understood, or else
the one for the verbosity. -/
def logFilter (words : Option String) (verbosity : Nat) : LogFilter :=
  (words.bind LogFilter.ofText?).getD (.ofVerbosity verbosity)

end ClamSyntax
