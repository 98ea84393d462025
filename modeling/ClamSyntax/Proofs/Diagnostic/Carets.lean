import ClamSyntax.Proofs.Diagnostic.Layout

namespace ClamSyntax

private theorem Text.eq_of_size_eq {front back other rest : List Char}
    (same : front ++ back = other ++ rest) (width : size front = size other) : back = rest := by
  have cut := drop?_size_append front back
  rw [same, width, drop?_size_append] at cut
  exact (Option.some.inj cut).symm

theorem Span.Marks.start_lt_stop {source part : List Char} {span : Span}
    (marks : span.Marks source part) : span.start < span.stop := by
  obtain ⟨some, before, after, -, rfl⟩ := marks
  exact Nat.lt_add_of_pos_right (Text.size_pos_of_ne_nil some)

theorem Span.Marks.exists_cons {source before rest more : List Char} {first : Char} {span : Span}
    (marks : span.Marks source (first :: more)) (split : source = before ++ rest)
    (here : span.start = Text.size before) : ∃ behind, rest = first :: behind := by
  obtain ⟨-, front, back, cut, rfl⟩ := marks
  have whole : front ++ first :: (more ++ back) = before ++ rest := by
    rw [← split, cut, List.append_assoc, List.cons_append]
  exact ⟨_, (Text.eq_of_size_eq whole here).symm⟩

namespace Lexer

private theorem skip_stops {inComment : Bool} {offset start : Nat} {text rest : List Char}
    {first : Char}
    (found : skip inComment offset text = (start, first :: rest)) : isBlank first = false := by
  fun_induction skip inComment offset text with
  | case1 => cases found
  | case2 _ _ _ ih => exact ih found
  | case3 _ _ _ _ _ _ ih => exact ih found
  | case4 _ _ _ _ _ ih => exact ih found
  | case5 _ _ _ _ _ noBlank =>
    cases found
    exact Bool.eq_false_iff.mpr noBlank

private theorem exists_first_of_mem (source : List Char) : ∀ token ∈ tokens source,
    ∃ first more, token.text = first :: more ∧ isBlank first = false := by
  apply tokensFrom_induction (motive := fun _ _ tokens => ∀ token ∈ tokens,
    ∃ first more, token.text = first :: more ∧ isBlank first = false) 0 source
  · intro offset start text found token member
    cases member
  · intro offset start text first rest found ih token member
    rcases List.mem_cons.mp member with rfl | later
    · have whole := lexeme_lossless first rest
      obtain ⟨head, more, text⟩ := List.exists_cons_of_ne_nil (lexeme_text_ne_nil first rest)
      rw [text, List.cons_append] at whole
      cases (List.cons.inj whole).1
      exact ⟨first, more, text, skip_stops found⟩
    · exact ih token later

end Lexer

namespace SyntaxError

def kind : SyntaxError → TokenKind
  | invalidEscape .. => .quoted
  | unexpected _ found _ => found

namespace Grounded

variable {source : List Char} {error : SyntaxError}

private theorem span_of_end (grounded : error.Grounded source) (ends : error.kind = .endOfInput) :
    error.span = .point (Text.size source) := by
  cases error with
  | invalidEscape => cases ends
  | unexpected expected found place =>
    obtain ⟨token, member, same, rfl⟩ := grounded
    rcases List.mem_append.mp member with inside | last
    · have proper := Lexer.tokens_proper source token inside
      exact absurd (same.trans ends) (Lexer.kind_ne_endOfInput proper)
    · cases List.mem_singleton.mp last
      rfl

private theorem exists_first (grounded : error.Grounded source)
    (inside : error.kind ≠ .endOfInput) :
    ∃ first more, error.span.Marks source (first :: more) ∧ first ≠ '\n' ∧ first ≠ '\r' := by
  cases error with
  | invalidEscape quoted place escape =>
    obtain ⟨-, marks, -⟩ := grounded
    exact ⟨'\\', [escape], marks, by decide, by decide⟩
  | unexpected expected found place =>
    obtain ⟨token, member, rfl, rfl⟩ := grounded
    rcases List.mem_append.mp member with here | last
    · have marks := (Lexer.tokensFrom_tiles 0 source).marks token here
      obtain ⟨first, more, text, noBlank⟩ := Lexer.exists_first_of_mem source token here
      simp only [Lexer.isBlank, Bool.or_eq_false_iff, beq_eq_false_iff_ne] at noBlank
      obtain ⟨⟨-, noReturn⟩, noNewline⟩ := noBlank
      exact ⟨first, more, text ▸ marks, noNewline, noReturn⟩
    · cases List.mem_singleton.mp last
      exact absurd rfl inside

end Grounded

end SyntaxError

namespace SourceLine.Cuts

variable {line : SourceLine} {before behind source excerpt more : List Char} {offset : Nat}
  {first : Char} {span : Span}

/-- The number of the line counts the newlines before the offset. -/
theorem number_eq (cuts : line.Cuts before behind source offset) :
    let bytes := Text.octets source
    line.number = (bytes.take (min offset bytes.length)).count Text.newline + 1 := by
  intro bytes
  have inside : min offset bytes.length ≤ bytes.length := Nat.min_le_right ..
  have located := Checked.locate_eq cuts
  rw [Checked.locate, Checked.lineAt, Checked.firstBytes, if_pos inside, Checked.bytesFrom,
    if_pos inside] at located
  have number : (bytes.take (min offset bytes.length)).countP Checked.isNewline + 1 = line.number :=
    congrArg Checked.Line.number (Except.ok.inj located)
  rw [← number, List.count, List.countP_congr]
  intro byte _
  rw [Text.isNewline_eq]

private theorem octets_shown (cuts : line.Cuts before behind source offset)
    (shown : Text.WithoutReturn line.text excerpt) :
    ((Text.octets source).take (line.start + Text.size excerpt)).drop line.start =
      Text.octets excerpt := by
  obtain ⟨ending, text⟩ : ∃ ending, line.text = excerpt ++ ending := by
    rcases shown with text | ⟨text, -⟩
    · exact ⟨['\r'], text⟩
    · exact ⟨[], by rw [text, List.append_nil]⟩
  have split : source = before ++ excerpt ++ (ending ++ behind) := by
    rw [cuts.split, text]
    simp only [List.append_assoc]
  rw [split, cuts.start, Text.octets_part]

/-- A character that does not end the line stands on it, in front of its end. -/
theorem start_lt_stop (cuts : line.Cuts before behind source span.start)
    (marks : span.Marks source (first :: more)) (noNewline : first ≠ '\n') :
    line.start ≤ span.start ∧ span.start < line.stop := by
  have reached := cuts.start_le
  have reaches := cuts.le_stop
  have nonempty := marks.start_lt_stop
  have inside := marks.stop_le
  refine ⟨by omega, Nat.lt_of_le_of_ne (by omega) fun ends => ?_⟩
  have here : span.start = Text.size (before ++ line.text) := by
    rw [ends, stop, cuts.start, Text.size_append]
  obtain ⟨rest, same⟩ := marks.exists_cons cuts.split here
  rcases cuts.closes with rfl | ⟨later, rfl⟩
  · cases same
  · exact noNewline (List.cons.inj same).1.symm

private theorem start_lt_shown (cuts : line.Cuts before behind source span.start)
    (shown : Text.WithoutReturn line.text excerpt) (marks : span.Marks source (first :: more))
    (noNewline : first ≠ '\n') (noReturn : first ≠ '\r') :
    span.start < line.start + Text.size excerpt := by
  have onLine := (cuts.start_lt_stop marks noNewline).2
  rcases shown with text | ⟨text, -⟩
  · have width : line.stop = line.start + Text.size excerpt + 1 := by
      rw [stop, text, Text.size_append, ← Nat.add_assoc]
      rfl
    refine Nat.lt_of_le_of_ne (by omega) fun ends => ?_
    have split : source = (before ++ excerpt) ++ '\r' :: behind := by
      rw [cuts.split, text]
      simp only [List.append_assoc, List.cons_append, List.nil_append]
    have here : span.start = Text.size (before ++ excerpt) := by
      rw [ends, Text.size_append, cuts.start]
    obtain ⟨rest, same⟩ := marks.exists_cons split here
    exact noReturn (List.cons.inj same).1.symm
  · rw [← text]
    exact onLine

end SourceLine.Cuts

namespace Diagnostic

/-- The bytes of the line that stand above the carets. -/
def above (excerpt : List Char) (column carets : Nat) : List UInt8 :=
  ((Text.octets excerpt).drop column).take carets

section Placed

variable {line : SourceLine} {before behind source : List Char} {span : Span}

theorem column_eq (cuts : line.Cuts before behind source span.start) :
    column line span = min span.start (Text.octets source).length - line.start := by
  have reached := cuts.start_le
  have reaches := cuts.le_stop
  have inside := cuts.stop_le
  rw [Text.length_octets] at inside ⊢
  rw [column]
  omega

/-- The carets end with what is shown of the line, if they begin on it. -/
theorem column_add_carets_le (line : SourceLine) (span : Span) :
    column line span + carets line span ≤
      max (Text.size line.visible) (column line span + 1) := by
  rw [carets]
  omega

private theorem carets_point (cuts : line.Cuts before behind source (Text.size source)) :
    carets line (.point (Text.size source)) = 1 := by
  have column : column line (.point (Text.size source)) =
      min (Text.size source) (Text.octets source).length - line.start := column_eq cuts
  have reached := cuts.start_le
  rw [Text.length_octets] at column
  rw [carets, column]
  dsimp only [Span.point]
  omega

/-- Above the carets is the range of the error, as far as it is shown. -/
theorem above_eq (cuts : line.Cuts before behind source span.start)
    (reached : line.start ≤ span.start) (onLine : span.start < line.stop)
    (shown : span.start < line.start + Text.size line.visible) (nonempty : span.start < span.stop) :
    let marked := above line.visible (column line span) (carets line span)
    marked.length = carets line span ∧
      marked = ((Text.octets source).take
        (min span.stop (line.start + Text.size line.visible))).drop span.start := by
  intro marked
  have line_eq := cuts.octets_shown line.visible_withoutReturn
  have start : line.start + column line span = span.start := by
    rw [column]
    omega
  have stop : min span.stop (line.start + Text.size line.visible) =
      span.start + carets line span := by
    rw [carets]
    omega
  have whole : marked = ((Text.octets source).take (span.start + carets line span)).drop
      span.start := by
    have ends : min (span.start + carets line span) (line.start + Text.size line.visible) =
        span.start + carets line span := by omega
    simp only [marked, above]
    rw [← line_eq, List.drop_drop, start, List.take_drop, List.take_take, ends]
  refine ⟨?_, by rw [stop, whole]⟩
  have width := congrArg List.length line_eq
  rw [whole]
  simp only [List.length_drop, List.length_take, Text.length_octets] at width ⊢
  omega

end Placed

end Diagnostic

/-- A report points at its error, whatever the range of the error is. The place is that of the byte
at which the range starts, or of the end of the source if that comes first; the row below the line
has a blank for every byte of the line in front of that byte, and then the carets, of which only the
first may stand behind what is shown. The error of a source that is rejected has the bytes of its
range above the carets, as far as they are shown, and one caret if it is about the end. -/
theorem carets_under_error (source : List Char) (file : String) (error : SyntaxError) :
    let bytes := Text.octets source
    let offset := min error.span.start bytes.length
    ∃ (line : SourceLine) (column carets : Nat) (excerpt : List Char),
      (line.IsPiece (bytes.splitOn Text.newline) ∧ line.start ≤ offset ∧ offset ≤ line.stop) ∧
      (line.number = (bytes.take offset).count Text.newline + 1 ∧ column = offset - line.start) ∧
      Text.WithoutReturn line.text excerpt ∧
      (Diagnostic.render source file error).toList = Text.unlines (Diagnostic.rows error.title file
        line.number column excerpt carets (Diagnostic.message source error)) ∧
      (1 ≤ carets ∧ column + carets ≤ max (Text.size excerpt) (column + 1)) ∧
      (parse source = .error error →
        (error.kind = .endOfInput → carets = 1) ∧
        (error.kind ≠ .endOfInput →
          (Diagnostic.above excerpt column carets).length = carets ∧
          Diagnostic.above excerpt column carets =
            (bytes.take (min error.span.stop (line.start + Text.size excerpt))).drop
              error.span.start)) := by
  intro bytes offset
  have length : bytes.length = Text.size source := Text.length_octets source
  obtain ⟨before, behind, cuts⟩ := SourceLine.exists_cuts_locate source error.span.start
  have report := Diagnostic.render_toList source file error
  generalize SourceLine.locate source error.span.start = line at cuts report
  have reached : line.start ≤ min error.span.start bytes.length := length ▸ cuts.start_le
  have reaches : min error.span.start bytes.length ≤ line.stop := length ▸ cuts.le_stop
  refine ⟨line, Diagnostic.column line error.span, Diagnostic.carets line error.span, line.visible,
    ⟨cuts.isPiece, reached, reaches⟩, ⟨cuts.number_eq, Diagnostic.column_eq cuts⟩,
    line.visible_withoutReturn, report,
    ⟨Nat.le_max_left 1 _, Diagnostic.column_add_carets_le line error.span⟩, fun rejected => ?_⟩
  have grounded := grounded_of_rejected rejected
  refine ⟨fun ends => ?_, fun inside => ?_⟩
  · have point := grounded.span_of_end ends
    rw [point] at cuts ⊢
    exact Diagnostic.carets_point cuts
  · obtain ⟨first, more, marks, noNewline, noReturn⟩ := grounded.exists_first inside
    obtain ⟨starts, onLine⟩ := cuts.start_lt_stop marks noNewline
    have shown := cuts.start_lt_shown line.visible_withoutReturn marks noNewline noReturn
    exact Diagnostic.above_eq cuts starts onLine shown marks.start_lt_stop

/-- The escape of a carriage return at the end of a line, behind a letter of two bytes: one caret,
and the backslash above it. -/
theorem caret_under_escaped_return :
    let source := "\x7b\"é\\\r\n\"\x7d".toList
    let error : SyntaxError := .invalidEscape ⟨1, 8⟩ ⟨4, 6⟩ '\r'
    parse source = .error error ∧ error.kind ≠ .endOfInput ∧
      ∃ (line : SourceLine) (column carets : Nat) (excerpt : List Char),
        (line.number = 1 ∧ column = 4 - line.start) ∧
        (Diagnostic.render source "m.clam" error).toList = Text.unlines (Diagnostic.rows error.title
          "m.clam" line.number column excerpt carets (Diagnostic.message source error)) ∧
        (Diagnostic.above excerpt column carets).length = carets ∧
        Diagnostic.above excerpt column carets =
          ((Text.octets source).take (min 6 (line.start + Text.size excerpt))).drop 4 := by
  have rejected : parse "\x7b\"é\\\r\n\"\x7d".toList =
      .error (.invalidEscape ⟨1, 8⟩ ⟨4, 6⟩ '\r') := by cbv
  obtain ⟨line, column, carets, excerpt, -, ⟨number, place⟩, -, report, -, points⟩ :=
    carets_under_error "\x7b\"é\\\r\n\"\x7d".toList "m.clam" (.invalidEscape ⟨1, 8⟩ ⟨4, 6⟩ '\r')
  have inside : SyntaxError.kind (.invalidEscape ⟨1, 8⟩ ⟨4, 6⟩ '\r') ≠ .endOfInput := by decide
  obtain ⟨width, shown⟩ := (points rejected).2 inside
  exact ⟨rejected, inside, line, column, carets, excerpt, ⟨number, place⟩, report, width, shown⟩

end ClamSyntax
