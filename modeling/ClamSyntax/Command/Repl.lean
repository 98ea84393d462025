import ClamSyntax.Command.Inspect
import ClamSyntax.Text.Printable

namespace ClamSyntax.Repl

def banner : Effect := .print "Clam REPL v0.1.0\nType ':help' for more information\n"

def prompt : Effect := .print "\n$ "

def help : Effect :=
  .print "Commands:\n  :exit - Exit the REPL\n  :help - Display this help message\n  :quit - Quit the REPL\n"

inductive Next where
  | listen
  | leave
  /-- the line was not text -/
  | breakOff
  deriving DecidableEq, Repr

def file : String := "stdin"

/-- The line without the line breaks at its end. -/
def trimEnd (line : List Char) : List Char :=
  (line.reverse.dropWhile fun c => c == '\n' || c == '\r').reverse

def evaluate (line : List Char) : List Effect :=
  match examine line with
  | (effects, .ok (arena, root)) =>
    let shown :=
      match arena.sexpr root with
      | .ok text => Effect.print ("Parser Output:\n" ++ text ++ "\n")
      | .error broken => Effect.complain (broken.message ++ "\n")
    effects ++ [.report (.lineAccepted arena.size), shown]
  | (effects, .error error) => effects ++ [.complain (Diagnostic.render line file error)]

/-- The answer to a line without its line break. A colon begins a command; a blank line
is passed over. -/
def answer (line : List Char) : List Effect × Next :=
  match line with
  | ':' :: name =>
    match String.ofList name with
    | "help" => ([help], .listen)
    | "exit" | "quit" => ([.print "Bye bye...\n"], .leave)
    | name => ([.complain ("Error: Unknown command ':" ++ name ++ "'\n"), help], .listen)
  | _ => if line.all Text.isBlank then ([], .listen) else (evaluate line, .listen)

def answerBytes (bytes : List UInt8) : List Effect × Next :=
  match String.fromUTF8? ⟨bytes.toArray⟩ with
  | some line => answer (trimEnd line.toList)
  | none => ([], .breakOff)

/-- The end of the input ends the line of the prompt. -/
def farewell : Effect := .print "\n"

/-- The first line of the input with its line break, and what follows. -/
def splitLine (input : List UInt8) : List UInt8 × List UInt8 :=
  let line := input.takeWhile (· != 10)
  match input.dropWhile (· != 10) with
  | [] => (line, [])
  | lineBreak :: rest => (line ++ [lineBreak], rest)

theorem splitLine_rest_length_lt {input : List UInt8} (nonempty : input ≠ []) :
    (splitLine input).2.length < input.length := by
  have whole := congrArg List.length
    (List.takeWhile_append_dropWhile (p := fun byte : UInt8 => byte != 10) (l := input))
  have positive := List.length_pos_iff.mpr nonempty
  rw [List.length_append] at whole
  unfold splitLine
  split
  · exact positive
  · rename_i rest found
    rw [found, List.length_cons] at whole
    simp only
    omega

/-- Prompts and answers until the input ends or a line ends the dialogue. The second
part says how it ended. -/
def dialogue (input : List UInt8) : List Effect × Next :=
  if _nonempty : input ≠ [] then
    match answerBytes (splitLine input).1 with
    | (effects, .listen) =>
      let (later, next) := dialogue (splitLine input).2
      (prompt :: (effects ++ later), next)
    | (effects, next) => (prompt :: effects, next)
  else ([prompt, farewell], .leave)
termination_by input.length
decreasing_by exact splitLine_rest_length_lt _nonempty

def run (input : List UInt8) : List Effect × Next :=
  let (effects, next) := dialogue input
  (banner :: effects, next)

end ClamSyntax.Repl
