import ClamSyntax.Proofs.Diagnostic.Lines
import ClamSyntax.Proofs.Session.Message

/-! The layout of a report: five rows, each ended by a newline. No row holds a newline of its own,
except that the message quotes the escape that was not understood as it stands in the source, and
that may be a backslash in front of a newline. -/

namespace ClamSyntax

namespace Text

/-- The second text is the first one without a carriage return at its end. -/
def WithoutReturn (text shown : List Char) : Prop :=
  text = shown ++ ['\r'] ∨ text = shown ∧ text.getLast? ≠ some '\r'

/-- Rows with a newline behind each. -/
def unlines (rows : List (List Char)) : List Char := rows.flatMap (· ++ ['\n'])

private theorem count_unlines (rows : List (List Char)) :
    (unlines rows).count '\n' = rows.flatten.count '\n' + rows.length := by
  induction rows with
  | nil => rfl
  | cons row rows ih =>
    rw [unlines] at ih ⊢
    simp only [List.flatMap_cons, List.count_append, ih, List.flatten_cons, List.length_cons,
      List.count_singleton_self]
    omega

/-- Cut at its newlines a text of rows falls into these rows, and nothing behind the last newline,
if no row holds a newline, and only then. -/
theorem splitOn_unlines_iff {rows : List (List Char)} :
    (unlines rows).splitOn '\n' = rows ++ [[]] ↔ ∀ row ∈ rows, '\n' ∉ row := by
  constructor
  · intro cut row member inside
    have pieces := length_splitOn '\n' (unlines rows)
    rw [cut, count_unlines, List.length_append, List.length_singleton] at pieces
    have none : rows.flatten.count '\n' = 0 := by omega
    exact List.count_eq_zero.mp none (List.mem_flatten.mpr ⟨row, member, inside⟩)
  · intro oneLine
    induction rows with
    | nil => rfl
    | cons row rows ih =>
      obtain ⟨here, behind⟩ := List.forall_mem_cons.mp oneLine
      rw [unlines, List.flatMap_cons, List.append_assoc, List.singleton_append,
        List.splitOn_append_cons_self_of_not_mem here, List.cons_append, ← ih behind, unlines]

end Text

namespace SourceLine

theorem visible_withoutReturn (line : SourceLine) : Text.WithoutReturn line.text line.visible := by
  rw [visible]
  split
  · rename_i ends
    exact .inl (List.dropLast_append_getLast? '\r' ends).symm
  · rename_i ends
    exact .inr ⟨rfl, ends⟩

private theorem visible_oneLine {line : SourceLine} (oneLine : '\n' ∉ line.text) :
    '\n' ∉ line.visible := by
  rw [visible]
  split
  · exact fun inside => oneLine (List.mem_of_mem_dropLast inside)
  · exact oneLine

end SourceLine

/-! What messages are made of -/

theorem Symbol.spelling_oneLine (fixed : Symbol) : '\n' ∉ fixed.spelling.toList := by
  cases fixed with
  | binary op => cases op <;> decide
  | _ => decide

private theorem TokenKind.text_oneLine (kind : TokenKind) : '\n' ∉ kind.text.toList := by
  cases kind with
  | symbol fixed => exact fixed.spelling_oneLine
  | _ => decide

private theorem Expectation.text_oneLine {expected : Expectation}
    (named : ∀ words, expected ≠ .described words) : '\n' ∉ expected.text.toList := by
  cases expected with
  | described words => exact absurd rfl (named words)
  | symbol fixed => simp [text, fixed.spelling_oneLine]
  | _ => decide

private theorem newline_not_mem_toString (number : Nat) : '\n' ∉ (toString number).toList := by
  intro inside
  rw [Nat.toString_eq_repr, Nat.toList_repr] at inside
  have digit := Nat.isDigit_of_mem_toDigits (by omega) (by omega) inside
  exact absurd digit (by decide)

section Rejected

variable {source : List Char} {error : SyntaxError}

theorem grounded_of_rejected (rejected : parse source = .error error) : error.Grounded source := by
  obtain ⟨failure, read, rfl⟩ := parse_eq_error_iff.mp rejected
  have fails : (Session.ofSource source).reading .program = .error failure :=
    congrArg (Except.map fun phrase => (phrase, [])) read
  have splits := (Session.ofSource source).reading_splits .program
  rw [fails] at splits
  exact Parser.Failure.error_grounded ⟨failure.taken, splits.symm⟩ (Session.reading_explained fails)

private theorem ne_described_of_rejected {expected : Expectation} {found : TokenKind} {place : Span}
    (rejected : parse source = .error (.unexpected expected found place)) (words : String) :
    expected ≠ .described words := by
  rintro rfl
  obtain ⟨failure, read, same⟩ := parse_eq_error_iff.mp rejected
  obtain ⟨reason, -⟩ := failure.expected_of_error same.symm
  have stopped : Parser.readProgram (Lexer.tokens source) =
      .error ⟨.expected (.described words), failure.rest⟩ := by
    rw [Parser.readProgram, read, ← reason]
    rfl
  obtain ⟨taken, -, ⟨last, -⟩ | ⟨⟨lexeme, -, offered⟩, -⟩⟩ := Parser.readProgram_truthful stopped
  · cases last
  · exact offered

/-- The message is one line unless it quotes a newline. -/
theorem message_oneLine_iff (rejected : parse source = .error error) :
    '\n' ∉ (Diagnostic.message source error).toList ↔
      ∀ quoted place, error ≠ .invalidEscape quoted place '\n' := by
  have message := (grounded_of_rejected rejected).message_eq
  cases error with
  | unexpected expected found place =>
    have expects := Expectation.text_oneLine (ne_described_of_rejected rejected)
    have front : '\n' ∉ "expected ".toList := by decide
    have middle : '\n' ∉ ", got '".toList := by decide
    have back : '\n' ∉ "'".toList := by decide
    rw [message]
    unfold SyntaxError.message
    simp only [String.toList_append, List.mem_append, front, expects, middle, found.text_oneLine,
      back, or_false, not_false_eq_true, ne_eq, reduceCtorEq, implies_true]
  | invalidEscape quoted place escape =>
    have front : '\n' ∉ "invalid escape sequence '".toList := by decide
    have backslash : '\n' ∉ "\\".toList := by decide
    have back : '\n' ∉ "'".toList := by decide
    have only : ('\n' ∈ (String.singleton escape).toList) ↔ escape = '\n' := by
      rw [String.toList_singleton, List.mem_singleton, eq_comm]
    rw [message]
    unfold SyntaxError.message SyntaxError.escapeMessage
    simp only [String.toList_append, List.mem_append, front, backslash, only, back, false_or,
      or_false, ne_eq, SyntaxError.invalidEscape.injEq, not_and]
    exact ⟨fun other _ _ _ _ => other, fun other => other quoted place rfl rfl⟩

end Rejected

namespace Diagnostic

/-- The rows of a report. -/
def rows (title file : String) (number column : Nat) (excerpt : List Char) (carets : Nat)
    (message : String) : List (List Char) :=
  [("error: " ++ title).toList,
    (" --> " ++ file ++ ":" ++ toString number ++ ":" ++ toString column).toList,
    excerpt,
    List.replicate column ' ' ++ List.replicate carets '^',
    message.toList]

theorem render_toList (source : List Char) (file : String) (error : SyntaxError) :
    let line := SourceLine.locate source error.span.start
    (render source file error).toList = Text.unlines (rows error.title file line.number
      (column line error.span) line.visible (carets line error.span) (message source error)) := by
  have place : "\n --> ".toList = '\n' :: " --> ".toList := rfl
  have newline : "\n".toList = ['\n'] := rfl
  unfold render
  simp only [rows, Text.unlines, String.toList_append, String.toList_ofList, place, newline,
    List.flatMap_cons, List.flatMap_nil, List.append_assoc, List.cons_append, List.nil_append,
    List.append_nil]

/-- Of the rows of a report only the message may hold a newline. -/
theorem rows_oneLine_iff {title file : String} {number column carets : Nat} {excerpt : List Char}
    {message : String} (titled : '\n' ∉ title.toList) (named : '\n' ∉ file.toList)
    (oneLine : '\n' ∉ excerpt) :
    (∀ row ∈ rows title file number column excerpt carets message, '\n' ∉ row) ↔
      '\n' ∉ message.toList := by
  have headline : '\n' ∉ "error: ".toList := by decide
  have arrow : '\n' ∉ " --> ".toList := by decide
  have colon : '\n' ∉ ":".toList := by decide
  have blank : '\n' ≠ ' ' := by decide
  have caret : '\n' ≠ '^' := by decide
  simp only [rows, List.forall_mem_cons, List.not_mem_nil, String.toList_append, List.mem_append,
    headline, titled, arrow, named, colon, newline_not_mem_toString, oneLine, List.mem_replicate,
    blank, caret, and_false, or_false, not_false_eq_true, true_and, false_imp_iff, implies_true,
    and_true]

end Diagnostic

private theorem SyntaxError.title_oneLine (error : SyntaxError) : '\n' ∉ error.title.toList := by
  cases error with
  | invalidEscape => exact (by decide : '\n' ∉ "invalid escape sequence".toList)
  | unexpected => exact (by decide : '\n' ∉ "unexpected token".toList)

/-- A source that is rejected is reported in five rows: the headline, the place, the line without
the carriage return at its end, the carets, and the message. They are five lines, each ended by a
newline, unless the message quotes a backslash in front of a newline. -/
theorem report_has_five_lines {source : List Char} {file : String} {error : SyntaxError}
    (rejected : parse source = .error error) (named : '\n' ∉ file.toList) :
    ∃ (line : SourceLine) (column carets : Nat) (excerpt : List Char),
      line.IsPiece ((Text.octets source).splitOn Text.newline) ∧
      Text.WithoutReturn line.text excerpt ∧ 1 ≤ carets ∧
      let report := (Diagnostic.render source file error).toList
      let rows := Diagnostic.rows error.title file line.number column excerpt carets
        (Diagnostic.message source error)
      report = Text.unlines rows ∧ rows.length = 5 ∧
      (report.splitOn '\n' = rows ++ [[]] ↔
        ∀ quoted place, error ≠ .invalidEscape quoted place '\n') := by
  obtain ⟨before, behind, cuts⟩ := SourceLine.exists_cuts_locate source error.span.start
  have report := Diagnostic.render_toList source file error
  generalize SourceLine.locate source error.span.start = line at cuts report
  have some : 1 ≤ Diagnostic.carets line error.span := Nat.le_max_left 1 _
  refine ⟨line, Diagnostic.column line error.span, Diagnostic.carets line error.span, line.visible,
    cuts.isPiece, line.visible_withoutReturn, some, report, rfl, ?_⟩
  rw [report, Text.splitOn_unlines_iff, Diagnostic.rows_oneLine_iff error.title_oneLine named
    (SourceLine.visible_oneLine cuts.oneLine)]
  exact message_oneLine_iff rejected

/-- The escape on the second line of a string. -/
theorem escape_on_second_line_reported :
    let source := "f \"é\r\n\\q\"".toList
    let error : SyntaxError := .invalidEscape ⟨2, 10⟩ ⟨7, 9⟩ 'q'
    ∃ (line : SourceLine) (column carets : Nat) (excerpt : List Char),
      line.IsPiece ((Text.octets source).splitOn Text.newline) ∧
      Text.WithoutReturn line.text excerpt ∧ 1 ≤ carets ∧
      (Diagnostic.render source "m.clam" error).toList.splitOn '\n' =
        Diagnostic.rows error.title "m.clam" line.number column excerpt carets
          (Diagnostic.message source error) ++ [[]] := by
  have rejected : parse "f \"é\r\n\\q\"".toList = .error (.invalidEscape ⟨2, 10⟩ ⟨7, 9⟩ 'q') := by
    cbv
  have named : '\n' ∉ "m.clam".toList := by decide
  have other : ∀ quoted place,
      SyntaxError.invalidEscape ⟨2, 10⟩ ⟨7, 9⟩ 'q' ≠ .invalidEscape quoted place '\n' := by
    intro quoted place same
    cases same
  obtain ⟨line, column, carets, excerpt, isPiece, shown, some, -, -, lines⟩ :=
    report_has_five_lines rejected named
  exact ⟨line, column, carets, excerpt, isPiece, shown, some, lines.mpr other⟩

/-- A backslash in front of a newline is quoted on two lines, and the report has six. -/
theorem escaped_newline_has_six_lines :
    let source := "\"\\\n\"".toList
    let error : SyntaxError := .invalidEscape ⟨0, 4⟩ ⟨1, 3⟩ '\n'
    parse source = .error error ∧
      (Diagnostic.render source "t.clam" error).toList.splitOn '\n' =
        ["error: invalid escape sequence", " --> t.clam:1:1", "\"\\", " ^",
          "invalid escape sequence '\\", "'", ""].map String.toList :=
  ⟨by cbv, by decide +kernel⟩

end ClamSyntax
