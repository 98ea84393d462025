import ClamSyntax.Command.Repl
import ClamSyntax.Proofs.Session.Parse

/-! Dialogues line by line. What one line adds to the output and to the complaints depends on that
line alone, so a dialogue over lines of text goes on behind them as a new one begins; behind a
line that ends the dialogue nothing is read. -/

namespace ClamSyntax

namespace Effect

variable (text : String) (event : Event) (effects : List Effect)

@[simp] theorem output_nil : output [] = "" := rfl

@[simp] theorem output_print : output (.print text :: effects) = text ++ output effects :=
  String.join_cons

@[simp] theorem output_complain : output (.complain text :: effects) = output effects := by
  simp [output]

@[simp] theorem output_report : output (.report event :: effects) = output effects := by
  simp [output]

@[simp] theorem complaints_nil : complaints [] = "" := rfl

@[simp] theorem complaints_print : complaints (.print text :: effects) = complaints effects := by
  simp [complaints, errors]

@[simp] theorem complaints_complain :
    complaints (.complain text :: effects) = text ++ complaints effects :=
  String.join_cons

@[simp] theorem complaints_report : complaints (.report event :: effects) = complaints effects := by
  simp [complaints, errors, LogFilter.shows, LogFilter.rule?]

@[simp] theorem output_append (first second : List Effect) :
    output (first ++ second) = output first ++ output second := by
  rw [output, List.map_append, String.join_append]
  rfl

@[simp] theorem complaints_append (first second : List Effect) :
    complaints (first ++ second) = complaints first ++ complaints second := by
  rw [complaints, errors, List.map_append, String.join_append]
  rfl

private theorem silent_of_reports {effects : List Effect}
    (reports : ∀ effect ∈ effects, ∃ event, effect = .report event) :
    output effects = "" ∧ complaints effects = "" := by
  induction effects with
  | nil => exact ⟨rfl, rfl⟩
  | cons effect effects ih =>
    obtain ⟨⟨event, rfl⟩, others⟩ := List.forall_mem_cons.mp reports
    rw [output_report, complaints_report]
    exact ih others

end Effect

private theorem examine_snd (source : List Char) : (examine source).2 = parse source := by
  rw [examine, parse]
  cases (Session.ofSource source).program.result with
  | ok root => rfl
  | error error => rfl

private theorem examine_reports (source : List Char) :
    ∀ effect ∈ (examine source).1, ∃ event, effect = .report event := by
  have terms : ∀ effect ∈ (Session.ofSource source).program.terms.map
      (fun token => Effect.report (.term token.kind token.start)),
      ∃ event, effect = .report event := by
    intro effect member
    obtain ⟨token, -, rfl⟩ := List.mem_map.mp member
    exact ⟨_, rfl⟩
  intro effect member
  rw [examine] at member
  split at member
  · rcases List.mem_append.mp member with early | last
    · exact terms effect early
    · exact ⟨_, List.mem_singleton.mp last⟩
  · rcases List.mem_append.mp member with early | last
    · exact terms effect early
    · exact ⟨_, List.mem_singleton.mp last⟩

private theorem exists_sexpr_of_parse {source : List Char} {arena : Arena} {root : Nat}
    (accepted : parse source = .ok (arena, root)) : ∃ text, arena.sexpr root = .ok text := by
  obtain ⟨phrase, -, -, same⟩ := parse_eq_ok_iff.mp accepted
  cases same
  rw [Arena.sexpr, phrase.expr?_stored]
  exact ⟨_, rfl⟩

namespace Repl

/-- The bytes are a whole line of the input, the rest of which is behind them: up to the line
break, or up to the end of the input. -/
def Heads (line rest : List UInt8) : Prop :=
  ∃ front, 10 ∉ front ∧ (line = front ++ [10] ∨ line = front ∧ front ≠ [] ∧ rest = [])

/-- The bytes are a line with its line break. -/
def Complete (line : List UInt8) : Prop := ∃ front, 10 ∉ front ∧ line = front ++ [10]

/-- The bytes are text that says the words, but for line breaks at its end. -/
def Says (line : List UInt8) (words : List Char) : Prop :=
  ∃ text breaks, String.fromUTF8? ⟨line.toArray⟩ = some text ∧ text.toList = words ++ breaks ∧
    (∀ c ∈ breaks, c = '\n' ∨ c = '\r') ∧ ∀ c ∈ words.getLast?, c ≠ '\n' ∧ c ≠ '\r'

def exits : List (List Char) := [":exit".toList, ":quit".toList]

/-- What is written during a dialogue, and how it ends. -/
structure Transcript where
  output : String
  complaints : String
  next : Next
  deriving DecidableEq

def transcript (input : List UInt8) : Transcript :=
  ⟨Effect.output (run input).1, Effect.complaints (run input).1, (run input).2⟩

/-- What a line adds behind its prompt to the output and to the complaints. -/
structure Addition where
  output : String
  complaints : String

/-- A blank line adds nothing. A command that is not known is a complaint, and the commands are
listed. Any other line is parsed, and adds what the parsing of a source of its own writes. -/
def addition (words : List Char) : Addition :=
  if words.all Text.isBlank then ⟨"", ""⟩
  else
    match words with
    | ':' :: name =>
      ⟨Effect.output [help],
        if name = "help".toList then ""
        else "Error: Unknown command ':" ++ String.ofList name ++ "'\n"⟩
    | _ =>
      let (effects, accepted) := showTree (String.ofList words) "stdin" .sexpr
      if accepted then ⟨"Parser Output:\n" ++ Effect.output effects, ""⟩
      else ⟨"", Effect.complaints effects⟩

/-- The effects write what is added. -/
def Addition.WrittenBy (added : Addition) (effects : List Effect) : Prop :=
  Effect.output effects = added.output ∧ Effect.complaints effects = added.complaints

variable {line rest front : List UInt8} {words : List Char}

theorem Complete.heads (complete : Complete line) (rest : List UInt8) : Heads line rest := by
  obtain ⟨front, plain, same⟩ := complete
  exact ⟨front, plain, .inl same⟩

section Splitting

private theorem before_break (plain : 10 ∉ front) : ∀ byte ∈ front, (byte != 10) = true := by
  rintro byte member
  exact bne_iff_ne.mpr fun same => plain (same ▸ member)

private theorem splitLine_broken (plain : 10 ∉ front) (rest : List UInt8) :
    splitLine (front ++ 10 :: rest) = (front ++ [10], rest) := by
  have taken : (front ++ 10 :: rest).takeWhile (· != 10) = front := by
    rw [List.takeWhile_append_of_pos (before_break plain)]
    simp
  have dropped : (front ++ 10 :: rest).dropWhile (· != 10) = 10 :: rest := by
    rw [List.dropWhile_append_of_pos (before_break plain)]
    simp
  rw [splitLine, taken, dropped]

private theorem splitLine_last (plain : 10 ∉ front) : splitLine front = (front, []) := by
  have taken : front.takeWhile (· != 10) = front :=
    List.takeWhile_eq_self_iff.mpr (before_break plain)
  have dropped : front.dropWhile (· != 10) = [] :=
    List.dropWhile_eq_nil_iff.mpr (before_break plain)
  rw [splitLine, taken, dropped]

/-- A line at the head of an input is what is read first. -/
theorem Heads.splitLine (heads : Heads line rest) :
    line ++ rest ≠ [] ∧ Repl.splitLine (line ++ rest) = (line, rest) := by
  obtain ⟨front, plain, rfl | ⟨rfl, present, rfl⟩⟩ := heads
  · rw [List.append_assoc]
    exact ⟨by simp, splitLine_broken plain rest⟩
  · rw [List.append_nil]
    exact ⟨present, splitLine_last plain⟩

private theorem dialogue_listen (heads : Heads line rest) {effects : List Effect}
    (answered : answerBytes line = (effects, .listen)) :
    dialogue (line ++ rest) = (prompt :: (effects ++ (dialogue rest).1), (dialogue rest).2) := by
  obtain ⟨present, split⟩ := heads.splitLine
  rw [dialogue, dif_pos present]
  simp only [split, answered]

private theorem dialogue_leave (heads : Heads line rest) {effects : List Effect}
    (answered : answerBytes line = (effects, .leave)) :
    dialogue (line ++ rest) = (prompt :: effects, .leave) := by
  obtain ⟨present, split⟩ := heads.splitLine
  rw [dialogue, dif_pos present]
  simp only [split, answered]

private theorem dialogue_nil : dialogue [] = ([prompt, farewell], .leave) := by
  rw [dialogue]
  exact dif_neg (not_not.mpr rfl)

end Splitting

section Answers

private theorem trimEnd_append {breaks : List Char} (broken : ∀ c ∈ breaks, c = '\n' ∨ c = '\r')
    (ends : ∀ c ∈ words.getLast?, c ≠ '\n' ∧ c ≠ '\r') : trimEnd (words ++ breaks) = words := by
  have dropped : ∀ c ∈ breaks.reverse, (c == '\n' || c == '\r') = true := by
    intro c member
    simpa using broken c (List.mem_reverse.mp member)
  have kept : words.reverse.dropWhile (fun c => c == '\n' || c == '\r') = words.reverse := by
    cases found : words.reverse with
    | nil => rfl
    | cons last before =>
      have isLast : words.getLast? = some last := by
        rw [List.getLast?_eq_head?_reverse, found]
        rfl
      obtain ⟨notNewline, notReturn⟩ := ends last isLast
      simp [notNewline, notReturn]
  rw [trimEnd, List.reverse_append, List.dropWhile_append_of_pos dropped, kept,
    List.reverse_reverse]

theorem Says.answerBytes (said : Says line words) : Repl.answerBytes line = answer words := by
  obtain ⟨text, breaks, decoded, same, broken, ends⟩ := said
  rw [Repl.answerBytes, decoded]
  change answer (trimEnd text.toList) = answer words
  rw [same, trimEnd_append broken ends]

private theorem answer_exit (last : words ∈ exits) :
    answer words = ([.print "Bye bye...\n"], .leave) := by
  rcases List.mem_pair.mp last with rfl | rfl <;> rfl

private theorem addition_blank (blank : words.all Text.isBlank = true) :
    addition words = ⟨"", ""⟩ :=
  if_pos blank

private theorem addition_command (name : List Char) : addition (':' :: name) =
    ⟨Effect.output [help],
      if name = "help".toList then ""
      else "Error: Unknown command ':" ++ String.ofList name ++ "'\n"⟩ := by
  have noBlank : ¬ (':' :: name).all Text.isBlank = true := by
    simp [Text.isBlank, Text.blankRanges]
  exact if_neg noBlank

private theorem command_written {name : List Char} (ordinary : ':' :: name ∉ exits) :
    ∃ effects, answer (':' :: name) = (effects, .listen) ∧
      (addition (':' :: name)).WrittenBy effects := by
  rw [addition_command, answer]
  split
  · rename_i known
    have same : name = "help".toList := by rw [← known, String.toList_ofList]
    rw [if_pos same]
    exact ⟨[help], rfl, rfl, rfl⟩
  · rename_i known
    have same : name = "exit".toList := by rw [← known, String.toList_ofList]
    exact absurd (List.mem_pair.mpr (.inl (congrArg (':' :: ·) same))) ordinary
  · rename_i known
    have same : name = "quit".toList := by rw [← known, String.toList_ofList]
    exact absurd (List.mem_pair.mpr (.inr (congrArg (':' :: ·) same))) ordinary
  · rename_i unknown _ _
    have other : name ≠ "help".toList := by
      rintro rfl
      exact unknown rfl
    rw [if_neg other]
    exact ⟨_, rfl, by simp [help], by simp [help]⟩

private theorem evaluate_written (noCommand : ∀ name, words ≠ ':' :: name)
    (present : ¬ words.all Text.isBlank = true) : (addition words).WrittenBy (evaluate words) := by
  obtain ⟨noOutput, noComplaints⟩ := Effect.silent_of_reports (examine_reports words)
  have result := examine_snd words
  unfold addition
  rw [if_neg present]
  split
  · rename_i name
    exact absurd rfl (noCommand name)
  · simp only [Addition.WrittenBy, evaluate, showTree, String.toList_ofList, Arena.format]
    generalize examine words = examined at noOutput noComplaints result ⊢
    obtain ⟨effects, outcome⟩ := examined
    cases outcome with
    | ok stored =>
      obtain ⟨text, written⟩ := exists_sexpr_of_parse result.symm
      simp [written, noOutput, noComplaints, String.append_assoc]
    | error error => simp [noOutput, noComplaints, file]

private theorem answer_ordinary (ordinary : words ∉ exits) :
    ∃ effects, answer words = (effects, .listen) ∧ (addition words).WrittenBy effects := by
  by_cases command : ∃ name, words = ':' :: name
  · obtain ⟨name, rfl⟩ := command
    exact command_written ordinary
  · have noCommand : ∀ name, words ≠ ':' :: name := fun name same => command ⟨name, same⟩
    have listens : answer words =
        if words.all Text.isBlank then ([], .listen) else (evaluate words, .listen) := by
      rw [answer]
      exact noCommand
    by_cases blank : words.all Text.isBlank = true
    · rw [listens, if_pos blank, addition_blank blank]
      exact ⟨[], rfl, rfl, rfl⟩
    · rw [listens, if_neg blank]
      exact ⟨_, rfl, evaluate_written noCommand blank⟩

end Answers

/-- The words are written on the line, and do not end the dialogue. -/
def Ordinary (line : List UInt8) (words : List Char) : Prop := Says line words ∧ words ∉ exits

/-- An ordinary line adds what its words add, and the rest of the input is answered as ever. -/
theorem Ordinary.dialogue (ordinary : Ordinary line words) : ∃ effects,
    (addition words).WrittenBy effects ∧ ∀ rest, Heads line rest →
      Repl.dialogue (line ++ rest) =
        (prompt :: (effects ++ (Repl.dialogue rest).1), (Repl.dialogue rest).2) := by
  obtain ⟨said, stays⟩ := ordinary
  obtain ⟨effects, answered, written⟩ := answer_ordinary stays
  refine ⟨effects, written, fun rest heads => ?_⟩
  exact dialogue_listen heads (said.answerBytes.trans answered)

/-- Behind whole ordinary lines the rest of the input is answered as ever. -/
theorem exists_dialogue_lines (lines : List (List UInt8))
    (ordinary : ∀ line ∈ lines, Complete line ∧ ∃ words, Ordinary line words) :
    ∃ effects, ∀ rest, dialogue (lines.flatten ++ rest) =
      (effects ++ (dialogue rest).1, (dialogue rest).2) := by
  induction lines with
  | nil => exact ⟨[], fun rest => rfl⟩
  | cons line lines ih =>
    obtain ⟨⟨complete, words, first⟩, others⟩ := List.forall_mem_cons.mp ordinary
    obtain ⟨effects, -, here⟩ := first.dialogue
    obtain ⟨later, there⟩ := ih others
    refine ⟨prompt :: (effects ++ later), fun rest => ?_⟩
    rw [List.flatten_cons, List.append_assoc, here _ (complete.heads _), there]
    simp only [List.cons_append, List.append_assoc]

/-- A line that ends the dialogue hides the rest of the input. -/
theorem dialogue_exit (complete : Complete line) (said : Says line words) (last : words ∈ exits)
    (rest : List UInt8) :
    dialogue (line ++ rest) = ([prompt, .print "Bye bye...\n"], .leave) :=
  dialogue_leave (complete.heads rest) (said.answerBytes.trans (answer_exit last))

private theorem transcript_of_dialogue {input : List UInt8} {effects : List Effect} {next : Next}
    (held : dialogue input = (effects, next)) : transcript input =
      ⟨Effect.output [banner] ++ Effect.output effects, Effect.complaints effects, next⟩ := by
  rw [transcript, run, held]
  simp [banner]

/-- Whole ordinary lines `A`, in front of any input `B`: the dialogue over both writes what it
writes over `A`, less the prompt and the line break at the end of the input, and then what it
writes over `B`, less the banner, and it ends as over `B`. Behind a line that ends the dialogue
the input may be anything. An ordinary line between `A` and `B`, which may also be the last one
and lack its line break, adds its prompt and what its words add. -/
theorem lines_independent (lines : List (List UInt8))
    (ordinary : ∀ line ∈ lines, Complete line ∧ ∃ words, Ordinary line words) :
    ∃ output complaints,
      transcript lines.flatten = ⟨output ++ "\n$ \n", complaints, .leave⟩ ∧
      (∀ rest, ∃ more, (transcript rest).output = Effect.output [banner] ++ more ∧
        transcript (lines.flatten ++ rest) =
          ⟨output ++ more, complaints ++ (transcript rest).complaints, (transcript rest).next⟩) ∧
      (∀ line words, Complete line → Says line words → words ∈ exits → ∀ rest other,
        transcript (lines.flatten ++ (line ++ rest)) =
          transcript (lines.flatten ++ (line ++ other))) ∧
      ∀ line words rest, Heads line rest → Ordinary line words →
        ∃ more, (transcript rest).output = Effect.output [banner] ++ more ∧
          transcript (lines.flatten ++ (line ++ rest)) =
            ⟨output ++ ("\n$ " ++ (addition words).output ++ more),
              complaints ++ ((addition words).complaints ++ (transcript rest).complaints),
              (transcript rest).next⟩ := by
  obtain ⟨effects, turns⟩ := exists_dialogue_lines lines ordinary
  have apart : ∀ rest, transcript rest = ⟨Effect.output [banner] ++ Effect.output (dialogue rest).1,
      Effect.complaints (dialogue rest).1, (dialogue rest).2⟩ := fun _ => transcript_of_dialogue rfl
  refine ⟨Effect.output [banner] ++ Effect.output effects, Effect.complaints effects,
    ?_, fun rest => ⟨Effect.output (dialogue rest).1, ?_, ?_⟩, ?_, ?_⟩
  · have whole := turns []
    rw [List.append_nil, dialogue_nil] at whole
    rw [transcript_of_dialogue whole]
    simp [prompt, farewell, String.append_assoc]
  · rw [apart]
  · rw [transcript_of_dialogue (turns rest), apart rest]
    simp [String.append_assoc]
  · intro line words complete said last rest other
    rw [transcript_of_dialogue (turns _), transcript_of_dialogue (turns _),
      dialogue_exit complete said last, dialogue_exit complete said last]
  · intro line words rest heads ordinary
    obtain ⟨here, written, turn⟩ := ordinary.dialogue
    refine ⟨Effect.output (dialogue rest).1, by rw [apart], ?_⟩
    rw [transcript_of_dialogue (turns _), turn rest heads, apart rest, ← written.1, ← written.2]
    simp [prompt, String.append_assoc]

/-- The dialogue `:x`, and then a line that is not text. -/
theorem unknown_command_independent :
    let line : List UInt8 := [58, 120, 13, 10]
    let broken : List UInt8 := [255, 10]
    Complete line ∧ Ordinary line [':', 'x'] ∧ ∃ output complaints more,
      transcript line = ⟨output ++ "\n$ \n", complaints, .leave⟩ ∧
      (transcript broken).output = Effect.output [banner] ++ more ∧
      transcript (line ++ broken) =
        ⟨output ++ more, complaints ++ (transcript broken).complaints,
          (transcript broken).next⟩ := by
  intro line broken
  have complete : Complete line := ⟨[58, 120, 13], by decide, rfl⟩
  have decoded : String.fromUTF8? ⟨#[58, 120, 13, 10]⟩ = some ":x\r\n" := rfl
  have said : Says line [':', 'x'] :=
    ⟨":x\r\n", ['\r', '\n'], decoded, rfl, by simp, by simp⟩
  have ordinary : Ordinary line [':', 'x'] := ⟨said, by decide⟩
  obtain ⟨output, complaints, alone, goesOn, -⟩ :=
    lines_independent [line] (List.forall_mem_singleton.mpr ⟨complete, _, ordinary⟩)
  obtain ⟨more, behind, whole⟩ := goesOn broken
  exact ⟨complete, ordinary, output, complaints, more, alone, behind, whole⟩

end Repl

end ClamSyntax
