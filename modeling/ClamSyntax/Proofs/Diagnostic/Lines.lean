import ClamSyntax.Proofs.Checked.Report

/-! The lines of a source. Cut at its newlines, a source falls into pieces, and the line that
holds the byte at an offset is one of them: its number counts the pieces, and its start is behind
the earlier ones. So a line is settled by its number, and later lines start further on. -/

namespace ClamSyntax

namespace Text

def newline : UInt8 := '\n'.toUInt8

/-- The number of bytes in front of the piece at an index, each earlier piece with a newline
behind it. -/
def pieceStart (pieces : List (List UInt8)) (index : Nat) : Nat :=
  (pieces.take index).flatten.length + index

section Pieces

variable {pieces : List (List UInt8)} {piece : List UInt8} {index : Nat}

private theorem pieceStart_succ (found : pieces[index]? = some piece) :
    pieceStart pieces (index + 1) = pieceStart pieces index + piece.length + 1 := by
  simp only [pieceStart, List.take_add_one, found, List.flatten_append, List.length_append,
    Option.toList_some, List.flatten_singleton]
  omega

private theorem pieceStart_mono (pieces : List (List UInt8)) {other : Nat}
    (ordered : index ≤ other) :
    pieceStart pieces index ≤ pieceStart pieces other := by
  obtain ⟨more, split⟩ : pieces.take index <+: pieces.take other :=
    List.take_prefix_take_left ordered
  rw [pieceStart, pieceStart, ← split, List.flatten_append, List.length_append]
  omega

end Pieces

theorem length_splitOn {α : Type} [BEq α] (separator : α) (items : List α) :
    (items.splitOn separator).length = items.count separator + 1 := by
  induction items with
  | nil => rfl
  | cons item items ih =>
    rw [List.splitOn_cons_eq_if_modifyHead, List.count_cons]
    split <;> simp [ih]

section Cut

variable (bytes : List UInt8)

private theorem length_flatten_splitOn :
    (bytes.splitOn newline).flatten.length + bytes.count newline = bytes.length := by
  induction bytes with
  | nil => rfl
  | cons byte bytes ih =>
    rw [List.splitOn_cons_eq_if_modifyHead, List.count_cons, List.length_cons]
    split
    · rw [List.flatten_cons, List.nil_append]
      omega
    · obtain ⟨head, tail, pieces⟩ := List.exists_cons_of_ne_nil (List.splitOn_ne_nil newline bytes)
      rw [pieces] at ih ⊢
      simp only [List.modifyHead_cons, List.flatten_cons, List.cons_append, List.length_cons,
        List.length_append] at ih ⊢
      omega

/-- What ends with a newline, or is empty, is made of whole pieces. -/
theorem exists_splitOn_append
    (opens : bytes = [] ∨ ∃ earlier, bytes = earlier ++ [newline]) (rest : List UInt8) :
    ∃ front, (bytes ++ rest).splitOn newline = front ++ rest.splitOn newline ∧
      front.length = bytes.count newline ∧ pieceStart front front.length = bytes.length := by
  rcases opens with rfl | ⟨earlier, rfl⟩
  · exact ⟨[], rfl, rfl, rfl⟩
  · have count : (earlier ++ [newline]).count newline = earlier.count newline + 1 := by simp
    refine ⟨earlier.splitOn newline, ?_, ?_, ?_⟩
    · rw [List.append_assoc, List.singleton_append, List.splitOn_append_cons_self]
    · rw [length_splitOn, count]
    · have lost := length_flatten_splitOn earlier
      rw [pieceStart, List.take_length, length_splitOn, List.length_append, List.length_singleton]
      omega

private theorem exists_splitOn_cons {piece : List UInt8} (oneLine : newline ∉ piece)
    (closes : bytes = [] ∨ ∃ later, bytes = newline :: later) :
    ∃ back, (piece ++ bytes).splitOn newline = piece :: back := by
  rcases closes with rfl | ⟨later, rfl⟩
  · rw [List.append_nil]
    exact ⟨[], List.splitOn_eq_singleton oneLine⟩
  · exact ⟨_, List.splitOn_append_cons_self_of_not_mem oneLine later⟩

end Cut

theorem octets_part (before part after : List Char) :
    ((octets (before ++ part ++ after)).take (size before + size part)).drop (size before) =
      octets part := by
  have width : size before + size part = (octets (before ++ part)).length := by
    rw [length_octets, size_append]
  rw [octets_append, width, List.take_left, drop_octets]

section Newlines

theorem isNewline_eq (byte : UInt8) : Checked.isNewline byte = (byte == newline) := by
  rw [Bool.eq_iff_iff, Checked.isNewline, onByte, beq_iff_eq, beq_iff_eq]
  constructor
  · intro same
    have value := congrArg Char.toNat same
    exact UInt8.toNat_inj.mp value
  · rintro rfl
    rfl

theorem count_newline (text : List Char) : (octets text).count newline = text.count '\n' := by
  rw [← Checked.newlines_eq text, List.count, List.countP_congr]
  intro byte _
  rw [isNewline_eq]

private theorem newline_not_mem {text : List Char} (oneLine : '\n' ∉ text) :
    newline ∉ octets text := by
  rw [← List.count_eq_zero, count_newline, List.count_eq_zero]
  exact oneLine

end Newlines

end Text

namespace SourceLine

/-- The line is one of the pieces, the one of its number, and starts where that piece does. -/
structure IsPiece (line : SourceLine) (pieces : List (List UInt8)) : Prop where
  numbered : 1 ≤ line.number
  piece : pieces[line.number - 1]? = some (Text.octets line.text)
  start : line.start = Text.pieceStart pieces (line.number - 1)

namespace Cuts

variable {line : SourceLine} {before behind source : List Char} {offset : Nat}

theorem isPiece (cuts : line.Cuts before behind source offset) :
    line.IsPiece ((Text.octets source).splitOn Text.newline) := by
  have opens : Text.octets before = [] ∨
      ∃ earlier, Text.octets before = earlier ++ [Text.newline] := by
    rcases cuts.opens with rfl | ⟨earlier, rfl⟩
    · exact .inl rfl
    · exact .inr ⟨_, Text.octets_append earlier ['\n']⟩
  have closes : Text.octets behind = [] ∨
      ∃ later, Text.octets behind = Text.newline :: later := by
    rcases cuts.closes with rfl | ⟨later, rfl⟩
    · exact .inl rfl
    · exact .inr ⟨_, Text.octets_append ['\n'] later⟩
  obtain ⟨front, split, length, start⟩ := Text.exists_splitOn_append _ opens
    (Text.octets line.text ++ Text.octets behind)
  obtain ⟨back, first⟩ := Text.exists_splitOn_cons _ (Text.newline_not_mem cuts.oneLine) closes
  have pieces : (Text.octets source).splitOn Text.newline =
      front ++ Text.octets line.text :: back := by
    rw [cuts.split, List.append_assoc, Text.octets_append, Text.octets_append, split, first]
  have index : line.number - 1 = front.length := by
    rw [cuts.number, length, Text.count_newline, Nat.add_sub_cancel]
  refine ⟨?_, ?_, ?_⟩
  · rw [cuts.number]
    exact Nat.le_add_left ..
  · rw [pieces, index, List.getElem?_append_right (Nat.le_refl _), Nat.sub_self]
    rfl
  · rw [cuts.start, ← Text.length_octets, ← start, pieces, index, Text.pieceStart,
      Text.pieceStart, List.take_left, List.take_length]

private theorem octets_eq (cuts : line.Cuts before behind source offset) :
    ((Text.octets source).take line.stop).drop line.start = Text.octets line.text := by
  rw [cuts.split, stop, cuts.start, Text.octets_part]

private theorem slice_eq (cuts : line.Cuts before behind source offset) :
    Text.slice? source ⟨line.start, line.stop⟩ = some line.text := by
  rw [cuts.split, stop, cuts.start]
  exact Text.slice?_append ..

theorem stop_le (cuts : line.Cuts before behind source offset) :
    line.stop ≤ (Text.octets source).length := by
  rw [Text.length_octets, cuts.split, stop, cuts.start, Text.size_append, Text.size_append]
  exact Nat.le_add_right ..

end Cuts

namespace IsPiece

variable {line next : SourceLine} {pieces : List (List UInt8)}

private theorem number_le (isPiece : line.IsPiece pieces) : line.number ≤ pieces.length := by
  obtain ⟨inside, -⟩ := List.getElem?_eq_some_iff.mp isPiece.piece
  have numbered := isPiece.numbered
  omega

private theorem stop_lt_start (first : line.IsPiece pieces) (second : next.IsPiece pieces)
    (ordered : line.number < next.number) : line.stop < next.start := by
  have numbered := first.numbered
  have ends := Text.pieceStart_succ first.piece
  have behind : line.number - 1 + 1 ≤ next.number - 1 := by omega
  have starts := Text.pieceStart_mono pieces behind
  rw [ends, Text.length_octets, ← first.start, ← second.start] at starts
  exact starts

private theorem eq_of_number (first : line.IsPiece pieces) (second : next.IsPiece pieces)
    (same : line.number = next.number) : line.start = next.start ∧ line.stop = next.stop := by
  have start : line.start = next.start := by rw [first.start, second.start, same]
  have piece := first.piece
  rw [same, second.piece] at piece
  have width := congrArg List.length (Option.some.inj piece)
  rw [Text.length_octets, Text.length_octets] at width
  exact ⟨start, by rw [stop, stop, start, width]⟩

/-- What starts where this line has not ended yet is on no later line. -/
theorem number_le_of_start_le (first : line.IsPiece pieces) (second : next.IsPiece pieces)
    (reached : line.start ≤ next.stop) : line.number ≤ next.number := by
  refine Nat.le_of_not_lt fun higher => ?_
  have apart := second.stop_lt_start first higher
  omega

private theorem number_eq_iff (first : line.IsPiece pieces) (second : next.IsPiece pieces) :
    line.number = next.number ↔ line.start = next.start ∧ line.stop = next.stop := by
  refine ⟨first.eq_of_number second, fun ⟨start, stop⟩ => ?_⟩
  have ordered : line.start ≤ line.stop := Nat.le_add_right ..
  exact Nat.le_antisymm (first.number_le_of_start_le second (by omega))
    (second.number_le_of_start_le first (by omega))

end IsPiece

end SourceLine

/-- The line that is located is the piece of its number where the bytes of the source are cut at
their newlines: it starts behind the earlier pieces and their newlines, it ends with the piece, the
offset is on it, and it can be cut out of the source. A later offset is on the same line or on one
of a higher number. -/
theorem locate_isPiece (source : List Char) (offset : Nat) :
    let bytes := Text.octets source
    let pieces := bytes.splitOn Text.newline
    let line := SourceLine.locate source offset
    Checked.locate source offset = .ok ⟨line.number, line.start, line.stop⟩ ∧
    (1 ≤ line.number ∧ line.number ≤ pieces.length) ∧
    (line.start ≤ min offset bytes.length ∧ min offset bytes.length ≤ line.stop ∧
      line.stop ≤ bytes.length) ∧
    pieces[line.number - 1]? = some ((bytes.take line.stop).drop line.start) ∧
    line.start = (pieces.take (line.number - 1)).flatten.length + (line.number - 1) ∧
    (Text.slice? source ⟨line.start, line.stop⟩ = some line.text ∧
      Text.octets line.text = (bytes.take line.stop).drop line.start) ∧
    ∀ later, offset ≤ later →
      let next := SourceLine.locate source later
      line.number ≤ next.number ∧
        (line.number = next.number ↔ line.start = next.start ∧ line.stop = next.stop) := by
  intro bytes pieces line
  have length : bytes.length = Text.size source := Text.length_octets source
  obtain ⟨before, behind, cuts⟩ := SourceLine.exists_cuts_locate source offset
  have isPiece : line.IsPiece pieces := cuts.isPiece
  have reached : line.start ≤ min offset bytes.length := length ▸ cuts.start_le
  have reaches : min offset bytes.length ≤ line.stop := length ▸ cuts.le_stop
  refine ⟨Checked.locate_eq cuts, ⟨isPiece.numbered, isPiece.number_le⟩,
    ⟨reached, reaches, cuts.stop_le⟩, ?_, isPiece.start, ⟨cuts.slice_eq, cuts.octets_eq.symm⟩, ?_⟩
  · rw [cuts.octets_eq]
    exact isPiece.piece
  · intro later ordered next
    obtain ⟨beforeNext, behindNext, cutsNext⟩ := SourceLine.exists_cuts_locate source later
    have isPieceNext : next.IsPiece pieces := cutsNext.isPiece
    have reachesNext : min later bytes.length ≤ next.stop := length ▸ cutsNext.le_stop
    have meets : line.start ≤ next.stop := by omega
    exact ⟨isPiece.number_le_of_start_le isPieceNext meets, isPiece.number_eq_iff isPieceNext⟩

/-- The newline belongs to the line that it ends, and an offset inside the letter behind it to the
line of the letter. -/
theorem inside_letter_isPiece :
    let source := "x\né".toList
    let line := SourceLine.locate source 1
    let next := SourceLine.locate source 3
    next = ⟨2, 2, ['é']⟩ ∧ Text.slice? source ⟨next.start, next.stop⟩ = some next.text ∧
      line.number ≤ next.number ∧
        (line.number = next.number ↔ line.start = next.start ∧ line.stop = next.stop) := by
  obtain ⟨-, -, -, -, -, ⟨slice, -⟩, -⟩ := locate_isPiece "x\né".toList 3
  obtain ⟨-, -, -, -, -, -, mono⟩ := locate_isPiece "x\né".toList 1
  exact ⟨by decide +kernel, slice, mono 3 (by decide)⟩

end ClamSyntax
