import ClamSyntax.Arena.Tree
import ClamSyntax.Text.Utf8

/-! The command line: a subcommand with its file and options. Flags are read from left
to right, so of several faults the first one counts. -/

namespace ClamSyntax

inductive Request where
  | help
  | version
  | parse (file : String) (format : Format)
  | lex (file : String)
  | repl
  deriving DecidableEq, Repr

structure Invocation where
  request : Request
  verbosity : Nat
  deriving DecidableEq, Repr

inductive UsageError where
  | unexpected (argument : String)
  | missing (what : String)
  | repeated (option : String)
  | badValue (option value : String)
  deriving DecidableEq, Repr

def UsageError.message : UsageError → String
  | unexpected argument => "unexpected argument '" ++ argument ++ "'"
  | missing what => "missing " ++ what
  | repeated option => "the option '" ++ option ++ "' is given more than once"
  | badValue option value => "bad value '" ++ value ++ "' for '" ++ option ++ "'"

def Format.ofName? : String → Option Format
  | "sexpr" => some .sexpr
  | "pretty" => some .pretty
  | "json" => some .json
  | _ => none

namespace Arguments

/-- What a word that begins with a dash asks for. -/
inductive Flags where
  /-- that many requests for more detail -/
  | verbose (count : Nat)
  | help
  | version
  | unknown
  deriving DecidableEq, Repr

/-- Reads a cluster of one-letter flags. Help and version are answered at once, whatever
follows. -/
def cluster (count : Nat) (withVersion : Bool) : List Char → Flags
  | [] => .verbose count
  | 'v' :: rest => cluster (count + 1) withVersion rest
  | 'h' :: _ => .help
  | 'V' :: _ => if withVersion then .version else .unknown
  | _ :: _ => .unknown

/-- Reads a flag. The version is a flag of the program, not of its subcommands. -/
def flags (withVersion : Bool) (word : List Char) : Flags :=
  match word with
  | '-' :: '-' :: name =>
    match String.ofList name with
    | "verbose" => .verbose 1
    | "help" => .help
    | "version" => if withVersion then .version else .unknown
    | _ => .unknown
  | '-' :: name@(_ :: _) => cluster 0 withVersion name
  | _ => .unknown

/-- What a subcommand takes besides flags. -/
structure Shape where
  takesFile : Bool
  takesFormat : Bool

structure Given where
  file : Option String
  format : Option Format
  verbosity : Option Nat

/-- How the arguments of a subcommand end: read to the end, or answered with help. -/
inductive Taken where
  | help
  | given (given : Given)

def takeFile (shape : Shape) (given : Given) (word : String) : Except UsageError Given :=
  if !shape.takesFile || given.file.isSome then .error (.unexpected word)
  else if word = "" then .error (.badValue "FILE" word)
  else .ok { given with file := some word }

def takeFormat (given : Given) (value : String) : Except UsageError Given :=
  if given.format.isSome then .error (.repeated "--format")
  else
    match Format.ofName? value with
    | some format => .ok { given with format := some format }
    | none => .error (.badValue "--format" value)

def looksLikeFlag (word : List Char) : Bool :=
  match word with
  | '-' :: _ :: _ => true
  | _ => false

/-- Reads the arguments of a subcommand. Behind `--` every word is a file. -/
def take (shape : Shape) (onlyFiles : Bool) (given : Given) :
    List String → Except UsageError Taken
  | [] => .ok (.given given)
  | word :: rest =>
    if onlyFiles || !looksLikeFlag word.toList then do
      take shape onlyFiles (← takeFile shape given word) rest
    else if word = "--" then take shape true given rest
    else if shape.takesFormat && word = "--format" then
      match rest with
      | [] => .error (.missing "a value for '--format'")
      | value :: rest =>
        if looksLikeFlag value.toList then .error (.missing "a value for '--format'")
        else do take shape onlyFiles (← takeFormat given value) rest
    else
      match (if shape.takesFormat then Text.after? "--format=".toList word.toList else none) with
      | some value => do
        take shape onlyFiles (← takeFormat given (String.ofList value)) rest
      | none =>
        match flags false word.toList with
        | .verbose count =>
          take shape onlyFiles
            { given with verbosity := some (given.verbosity.getD 0 + count) } rest
        | .help => .ok .help
        | _ => .error (.unexpected word)

/-- Builds the invocation of a subcommand. Flags behind its name replace those before. -/
def subcommand (shape : Shape) (verbosity : Nat) (words : List String)
    (build : Given → Except UsageError Request) : Except UsageError Invocation := do
  match ← take shape false ⟨none, none, none⟩ words with
  | .help => return ⟨.help, verbosity⟩
  | .given given => return ⟨← build given, given.verbosity.getD verbosity⟩

def requireFile (given : Given) : Except UsageError String :=
  match given.file with
  | some file => .ok file
  | none => .error (.missing "FILE")

/-- Reads the words before the name of a subcommand, counting verbosity flags. -/
def read (verbosity : Nat) : List String → Except UsageError Invocation
  | [] => .error (.missing "a subcommand")
  | "parse" :: words =>
    subcommand ⟨true, true⟩ verbosity words fun given => do
      return .parse (← requireFile given) (given.format.getD .sexpr)
  | "lex" :: words =>
    subcommand ⟨true, false⟩ verbosity words fun given => do return .lex (← requireFile given)
  | "repl" :: words => subcommand ⟨false, false⟩ verbosity words fun _ => .ok .repl
  | "help" :: words =>
    match words with
    | [] | ["parse"] | ["lex"] | ["repl"] | ["help"] => .ok ⟨.help, verbosity⟩
    | word :: _ => .error (.unexpected word)
  | word :: words =>
    match flags true word.toList with
    | .verbose count => read (verbosity + count) words
    | .help => .ok ⟨.help, verbosity⟩
    | .version => .ok ⟨.version, verbosity⟩
    | .unknown => .error (.unexpected word)

end Arguments

def Invocation.ofArguments (words : List String) : Except UsageError Invocation :=
  Arguments.read 0 words

end ClamSyntax
