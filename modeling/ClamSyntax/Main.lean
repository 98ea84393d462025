import ClamSyntax.Command.Run

namespace ClamSyntax.Main

def readFailure : IO.Error → ReadFailure
  | .noFileOrDirectory .. => .notFound
  | .inappropriateType _ code _ => if code = 21 then .isADirectory else .notADirectory
  | .invalidArgument _ _ "name too long" => .nameTooLong
  | error => .other (toString error)

def readFile (path : String) : IO (Except ReadFailure ByteArray) := do
  try
    return .ok (← IO.FS.readBinFile path)
  catch error =>
    return .error (readFailure error)

def perform (filter : LogFilter) (effects : List Effect) : IO Unit := do
  let out ← IO.getStdout
  let err ← IO.getStderr
  for effect in effects do
    match effect with
    | .print text =>
      out.putStr text
      out.flush
    | .complain text => err.putStr text
    | .report event => if filter.shows event then err.putStr event.line

/-- Reads the bytes of a line with its line break, given those read so far in reverse. -/
partial def readLine (input : IO.FS.Stream) (before : List UInt8) : IO (List UInt8) := do
  let bytes ← input.read 1
  match bytes.toList with
  | [] => return before.reverse
  | byte :: _ =>
    if byte = 10 then return (byte :: before).reverse else readLine input (byte :: before)

partial def converse (filter : LogFilter) (input : IO.FS.Stream) : IO Repl.Next := do
  perform filter [Repl.prompt]
  match ← readLine input [] with
  | [] =>
    perform filter [Repl.farewell]
    return .leave
  | line =>
    let (effects, next) := Repl.answerBytes line
    perform filter effects
    match next with
    | .listen => converse filter input
    | next => return next

def carryOut (filter : LogFilter) : Request → IO Nat
  | .repl => do
    perform filter [Repl.banner]
    let completed := Completed.ofDialogue [] (← converse filter (← IO.getStdin))
    perform filter completed.effects
    return completed.code
  | request => do
    let found ←
      match request with
      | .parse file _ => readFile file
      | .lex file => readFile file
      | _ => pure (.error .notFound)
    let completed := request.run ⟨fun _ => found, []⟩
    perform filter completed.effects
    return completed.code

end ClamSyntax.Main

open ClamSyntax in
def main (words : List String) : IO UInt32 := do
  match Invocation.ofArguments words with
  | .error error =>
    Main.perform ⟨[]⟩ error.completed.effects
    return UInt32.ofNat error.completed.code
  | .ok invocation =>
    let filter := logFilter (← IO.getEnv "RUST_LOG") invocation.verbosity
    return UInt32.ofNat (← Main.carryOut filter invocation.request)
