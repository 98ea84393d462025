import ClamSyntax.Diagnostic
import ClamSyntax.Proofs.Checked.Octets
import ClamSyntax.Proofs.Checked.Operation

namespace ClamSyntax

/-- The line as a part of the source, between what stands before it and what stands behind it,
with the offset on it. An offset outside the source counts as its end. -/
structure SourceLine.Cuts (line : SourceLine) (before behind source : List Char) (offset : Nat) :
    Prop where
  split : source = before ++ line.text ++ behind
  number : line.number = before.count '\n' + 1
  start : line.start = Text.size before
  oneLine : '\n' ∉ line.text
  opens : before = [] ∨ ∃ earlier, before = earlier ++ ['\n']
  closes : behind = [] ∨ ∃ later, behind = '\n' :: later
  start_le : line.start ≤ min offset (Text.size source)
  le_stop : min offset (Text.size source) ≤ line.stop

namespace SourceLine

private theorem cuts_of_known {before known behind : List Char} {offset : Nat}
    (oneLine : '\n' ∉ known)
    (opens : before = [] ∨ ∃ earlier, before = earlier ++ ['\n'])
    (closes : behind = [] ∨ ∃ later, behind = '\n' :: later) (reached : Text.size before ≤ offset)
    (reaches : min offset (Text.size (before ++ known ++ behind)) ≤
      Text.size before + Text.size known) :
    Cuts ⟨before.count '\n' + 1, Text.size before, known⟩ before behind (before ++ known ++ behind)
      offset where
  split := rfl
  number := rfl
  start := rfl
  oneLine := oneLine
  opens := opens
  closes := closes
  start_le := Nat.le_min.mpr ⟨reached, by simp only [Text.size_append]; omega⟩
  le_stop := reaches

private theorem exists_cuts_locateFrom {before known rest : List Char} {here offset : Nat}
    (place : here = Text.size before + Text.size known) (oneLine : '\n' ∉ known)
    (opens : before = [] ∨ ∃ earlier, before = earlier ++ ['\n'])
    (reached : Text.size before ≤ offset) :
    ∃ front behind, (locateFrom (before.count '\n' + 1) (Text.size before) known.reverse here offset
      rest).Cuts front behind (before ++ known ++ rest) offset := by
  induction rest generalizing before known here with
  | nil =>
    have reaches : min offset (Text.size (before ++ known ++ [])) ≤
        Text.size before + Text.size known := by
      rw [List.append_nil, Text.size_append]
      exact Nat.min_le_right ..
    refine ⟨before, [], ?_⟩
    rw [locateFrom, List.reverse_reverse]
    exact cuts_of_known oneLine opens (.inl rfl) reached reaches
  | cons c rest ih =>
    rw [locateFrom]
    by_cases newline : c = '\n'
    · subst newline
      rw [if_pos rfl]
      by_cases here_ge : offset ≤ here
      · have reaches : offset ≤ Text.size before + Text.size known := place ▸ here_ge
        refine ⟨before, '\n' :: rest, ?_⟩
        rw [if_pos here_ge, List.reverse_reverse]
        exact cuts_of_known oneLine opens (.inr ⟨rest, rfl⟩) reached
          (Nat.le_trans (Nat.min_le_left ..) reaches)
      · rw [if_neg here_ge]
        have one : Text.size ['\n'] = 1 := rfl
        have lineStart : Text.size (before ++ known ++ ['\n']) = here + 1 := by
          rw [Text.size_append, Text.size_append, place, one]
        have counted : (before ++ known ++ ['\n']).count '\n' = before.count '\n' + 1 := by
          rw [List.count_append, List.count_append, List.count_eq_zero_of_not_mem oneLine]
          rfl
        have place' : here + 1 = Text.size (before ++ known ++ ['\n']) + Text.size [] :=
          lineStart.symm
        have next := ih place' List.not_mem_nil (.inr ⟨before ++ known, rfl⟩) (by omega)
        rw [lineStart, counted] at next
        simpa using next
    · rw [if_neg newline]
      have extended : '\n' ∉ known ++ [c] := by
        simp [oneLine, Ne.symm newline]
      have width : here + c.utf8Size = Text.size before + Text.size (known ++ [c]) := by
        simp [place, Nat.add_assoc]
      have next := ih width extended opens reached
      rw [List.reverse_append] at next
      simpa using next

/-- The line that is located is a line of the source, and the offset is on it. -/
theorem exists_cuts_locate (source : List Char) (offset : Nat) :
    ∃ before behind, (locate source offset).Cuts before behind source offset :=
  exists_cuts_locateFrom (show 0 = Text.size [] + Text.size [] from rfl) List.not_mem_nil (.inl rfl)
    (Nat.zero_le _)

end SourceLine

namespace Checked

/-- A line of a source by its number and the offsets of its start and of its end. -/
structure Line where
  number : Nat
  start : Nat
  stop : Nat
  deriving DecidableEq, Repr

def firstBytes (bytes : List UInt8) (count : Nat) : Except Fault (List UInt8) :=
  if count ≤ bytes.length then .ok (bytes.take count) else .error (.outside count)

def bytesFrom (bytes : List UInt8) (offset : Nat) : Except Fault (List UInt8) :=
  if offset ≤ bytes.length then .ok (bytes.drop offset) else .error (.outside offset)

def isNewline : UInt8 → Bool := Text.onByte (· == '\n')

def firstNewline? (bytes : List UInt8) : Option Nat := bytes.findIdx? isNewline

def lastNewline? (bytes : List UInt8) : Option Nat :=
  (firstNewline? bytes.reverse).map (bytes.length - 1 - ·)

/-- The line around an offset, found by the newlines next to it. -/
def lineAt (bytes : List UInt8) (offset : Nat) : Except Fault Line := do
  let before ← firstBytes bytes offset
  let behind ← bytesFrom bytes offset
  return {
    number := before.countP isNewline + 1
    start := (lastNewline? before).elim 0 (· + 1)
    stop := (firstNewline? behind).elim bytes.length (offset + ·) }

/-- The line that holds the byte at an offset, or the last one. -/
def locate (source : List Char) (offset : Nat) : Except Fault Line :=
  lineAt (Text.octets source) (min offset (Text.octets source).length)

def withoutReturn (text : List Char) : List Char :=
  if text.getLast? = some '\r' then text.dropLast else text

def render (source : List Char) (file : String) (error : SyntaxError) : Except Fault String := do
  let line ← locate source error.span.start
  let start ← clamp error.span.start line.start line.stop
  let column ← sub start line.start
  let text := withoutReturn ((Text.slice? source ⟨line.start, line.stop⟩).getD [])
  let underlineEnd := min error.span.stop (line.start + Text.size text)
  let carets := max (underlineEnd - start) 1
  return "error: " ++ error.title ++ "\n --> " ++ file ++ ":" ++ toString line.number ++ ":"
    ++ toString column ++ "\n" ++ String.ofList text ++ "\n"
    ++ String.ofList (List.replicate column ' ')
    ++ String.ofList (List.replicate carets '^') ++ "\n"
    ++ Diagnostic.message source error ++ "\n"

section Newlines

variable {bytes front behind : List UInt8}

private theorem ascii_newline : Text.Ascii (· == '\n') := Text.ascii_eq (by decide)

theorem newlines_eq (text : List Char) :
    (Text.octets text).countP isNewline = text.count '\n' :=
  Text.countP_octets ascii_newline text

private theorem isNewline_eq_false {text : List Char} (oneLine : '\n' ∉ text) {byte : UInt8}
    (member : byte ∈ Text.octets text) : isNewline byte = false := by
  have none := newlines_eq text
  rw [List.count_eq_zero_of_not_mem oneLine, List.countP_eq_zero] at none
  exact Bool.eq_false_iff.mpr (none byte member)

theorem firstNewline?_append (without : ∀ byte ∈ front, isNewline byte = false) :
    firstNewline? (front ++ behind) = (firstNewline? behind).map (· + front.length) := by
  rw [firstNewline?, List.findIdx?_append, List.findIdx?_eq_none_iff.mpr without]
  rfl

private theorem lastNewline?_octets {text : List Char}
    (opens : text = [] ∨ ∃ earlier, text = earlier ++ ['\n'])
    (without : ∀ byte ∈ behind, isNewline byte = false) :
    (lastNewline? (Text.octets text ++ behind)).elim 0 (· + 1) = Text.size text := by
  have reversed : ∀ byte ∈ behind.reverse, isNewline byte = false :=
    fun byte member => without byte (List.mem_reverse.mp member)
  rw [lastNewline?, List.reverse_append, firstNewline?_append reversed]
  rcases opens with rfl | ⟨earlier, rfl⟩
  · rfl
  · have last : Text.octets ['\n'] = ['\n'.toUInt8] := rfl
    have found : firstNewline? (Text.octets (earlier ++ ['\n'])).reverse = some 0 := by
      rw [Text.octets_append, last, List.reverse_append]
      rfl
    have one : Text.size ['\n'] = 1 := rfl
    rw [found]
    simp only [Option.map_some, Option.elim_some, List.length_append, Text.length_octets,
      Text.size_append, one, List.length_reverse]
    omega

private theorem firstNewline?_octets {text : List Char} (offset : Nat)
    (closes : text = [] ∨ ∃ later, text = '\n' :: later)
    (without : ∀ byte ∈ front, isNewline byte = false) :
    (firstNewline? (front ++ Text.octets text)).elim (offset + (front ++ Text.octets text).length)
      (offset + ·) = offset + front.length := by
  rw [firstNewline?_append without]
  rcases closes with rfl | ⟨later, rfl⟩
  · rw [Text.octets_nil, List.append_nil]
    rfl
  · have found : firstNewline? (Text.octets ('\n' :: later)) = some 0 := by
      rw [Text.octets_cons]
      rfl
    rw [found]
    exact congrArg (offset + ·) (Nat.zero_add _)

private theorem lineAt_append (before behind : List UInt8) :
    lineAt (before ++ behind) before.length = .ok {
      number := before.countP isNewline + 1
      start := (lastNewline? before).elim 0 (· + 1)
      stop := (firstNewline? behind).elim (before.length + behind.length)
        (before.length + ·) } := by
  have inside : before.length ≤ (before ++ behind).length := by
    rw [List.length_append]
    exact Nat.le_add_right ..
  rw [lineAt, firstBytes, if_pos inside, bytesFrom, if_pos inside, List.take_left, List.drop_left,
    List.length_append]
  rfl

end Newlines

variable {source before behind : List Char} {offset : Nat}

theorem locate_eq {line : SourceLine} (cuts : line.Cuts before behind source offset) :
    locate source offset = .ok ⟨line.number, line.start, line.stop⟩ := by
  have reached := cuts.start_le
  have reaches := cuts.le_stop
  rw [← Text.length_octets source] at reached reaches
  -- the offset cuts the bytes of the line in two
  obtain ⟨front, back, line_eq, width⟩ : ∃ front back, Text.octets line.text = front ++ back ∧
      line.start + front.length = min offset (Text.octets source).length := by
    refine ⟨_, _, (List.take_append_drop (min offset (Text.octets source).length - line.start)
      _).symm, ?_⟩
    rw [SourceLine.stop] at reaches
    rw [List.length_take, Text.length_octets line.text]
    omega
  have noNewline : ∀ byte ∈ front ++ back, isNewline byte = false := fun byte member =>
    isNewline_eq_false cuts.oneLine (line_eq ▸ member)
  have inFront : ∀ byte ∈ front, isNewline byte = false := fun byte member =>
    noNewline byte (List.mem_append_left _ member)
  have inBack : ∀ byte ∈ back, isNewline byte = false := fun byte member =>
    noNewline byte (List.mem_append_right _ member)
  have bytes : Text.octets source =
      (Text.octets before ++ front) ++ (back ++ Text.octets behind) := by
    rw [cuts.split, Text.octets_append, Text.octets_append, line_eq]
    simp only [List.append_assoc]
  have length : (Text.octets before ++ front).length = line.start + front.length := by
    rw [List.length_append, Text.length_octets, cuts.start]
  have number : (Text.octets before ++ front).countP isNewline + 1 = line.number := by
    rw [List.countP_append, newlines_eq, List.countP_eq_zero.mpr (by simpa using inFront),
      cuts.number, Nat.add_zero]
  have stop : line.stop = (Text.octets before ++ front).length + back.length := by
    rw [SourceLine.stop, ← Text.length_octets, line_eq, List.length_append, length, Nat.add_assoc]
  rw [locate, ← width, ← length, bytes, lineAt_append, number,
    lastNewline?_octets cuts.opens inFront, ← cuts.start, stop,
    firstNewline?_octets _ cuts.closes inBack]

/-- A report is the same from the bytes of the source. -/
theorem render_eq (source : List Char) (file : String) (error : SyntaxError) :
    render source file error = .ok (Diagnostic.render source file error) := by
  obtain ⟨before, behind, cuts⟩ := SourceLine.exists_cuts_locate source error.span.start
  unfold Diagnostic.render
  generalize SourceLine.locate source error.span.start = line at cuts ⊢
  have ordered : line.start ≤ line.stop := Nat.le_add_right ..
  have text : Text.slice? source ⟨line.start, line.stop⟩ = some line.text := by
    rw [cuts.split, SourceLine.stop, cuts.start]
    exact Text.slice?_append ..
  have column : sub (max line.start (min error.span.start line.stop)) line.start =
      .ok (Diagnostic.column line error.span) := sub_eq (Nat.le_max_left ..)
  have carets : max (min error.span.stop (line.start + Text.size line.visible) -
      max line.start (min error.span.start line.stop)) 1 = Diagnostic.carets line error.span := by
    simp only [Diagnostic.carets, Diagnostic.column]
    omega
  have visible : withoutReturn line.text = line.visible := rfl
  simp only [render, locate_eq cuts, ok_bind, clamp_eq ordered, column, text, Option.getD_some,
    visible, carets, pure, Except.pure]

end Checked

end ClamSyntax
