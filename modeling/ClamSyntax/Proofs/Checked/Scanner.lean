import ClamSyntax.Proofs.Checked.Octets
import ClamSyntax.Proofs.Checked.Operation
import ClamSyntax.Proofs.Token.Place

namespace ClamSyntax

/-- The kind of a token and where it stands. -/
structure Checked.Placed where
  kind : TokenKind
  span : Span
  deriving DecidableEq, Repr

def Token.placed (token : Token) : Checked.Placed := ⟨token.kind, token.span⟩

namespace Checked

open Text (octets onByte Narrow Ascii)

/-- The position behind blanks and comments. -/
def skip (inComment : Bool) (pos : Nat) : List UInt8 → Nat
  | [] => pos
  | byte :: rest =>
    if inComment then skip (!onByte (· == '\n') byte) (pos + 1) rest
    else if onByte Lexer.isBlank byte then skip false (pos + 1) rest
    else if onByte (· == '#') byte then skip true (pos + 1) rest
    else pos

/-- The kind and the end of a string from behind its opening quote. A backslash takes one byte
along, not one character. -/
def string (escaped : Bool) (pos : Nat) : List UInt8 → TokenKind × Nat
  | [] => (.invalid, pos)
  | byte :: rest =>
    if escaped then string false (pos + 1) rest
    else if onByte (· == '"') byte then (.quoted, pos + 1)
    else string (onByte (· == '\\') byte) (pos + 1) rest

def number (start : Nat) (bytes : List UInt8) : TokenKind × Nat :=
  let whole := start + (bytes.takeWhile (onByte Char.isDigit)).length
  match bytes.dropWhile (onByte Char.isDigit) with
  | [] => (.integer, whole)
  | point :: behind =>
    if onByte (· == '.') point && behind.head?.any (onByte Char.isDigit) then
      (.decimal, whole + 1 + (behind.takeWhile (onByte Char.isDigit)).length)
    else (.integer, whole)

/-- The punctuation at the head of the bytes, the longest if several fit. -/
def mark? (bytes : List UInt8) : Option Symbol :=
  Symbol.marks.find? fun symbol => (octets symbol.spelling.toList).isPrefixOf bytes

/-- The kind and the end of the token that starts with the byte. A word is looked up as the slice
that it is; what begins nothing is as wide as the first character from there on. -/
def kindFrom (source : List Char) (start : Nat) (first : UInt8) (rest : List UInt8) :
    Except Fault (TokenKind × Nat) :=
  if onByte (· == '"') first then .ok (string false (start + 1) rest)
  else if onByte Char.isDigit first then .ok (number start (first :: rest))
  else if onByte Lexer.isWordStart first then
    let stop := start + ((first :: rest).takeWhile (onByte Lexer.isWordPart)).length
    (slice source ⟨start, stop⟩).map fun text => ((Lexer.word text).kind, stop)
  else
    match mark? (first :: rest) with
    | some symbol => .ok (.symbol symbol, start + Text.size symbol.spelling.toList)
    | none =>
      (slice source ⟨start, Text.size source⟩).map fun text =>
        (.invalid, start + (text.head?.map Char.utf8Size).getD 1)

def placed (kind : TokenKind) (start stop : Nat) : Except Fault Placed :=
  (range (offset32 start) (offset32 stop)).map fun span => ⟨kind, span⟩

/-- The token at or behind the position, and the position behind the token. -/
def scan (source : List Char) (pos : Nat) : Except Fault (Placed × Nat) :=
  let start := skip false pos ((octets source).drop pos)
  match (octets source).drop start with
  | [] => (placed .endOfInput start start).map fun token => (token, start)
  | first :: rest => do
    let (kind, stop) ← kindFrom source start first rest
    let token ← placed kind start stop
    return (token, stop)

/-- The tokens of so many scans, one behind the other. -/
def scans (source : List Char) : Nat → Nat → Except Fault (List Placed)
  | 0, _ => .ok []
  | count + 1, pos => do
    let (token, stop) ← scan source pos
    let others ← scans source count stop
    return token :: others

/-- The tokens before the end of the source. There are no more of them than bytes. -/
def tokens (source : List Char) : Except Fault (List Placed) :=
  (scans source (Text.size source) 0).map (List.filter (·.kind != .endOfInput))

section Bytes

variable {test : Char → Bool} {c : Char} {text : List Char} {byte : UInt8} {more : List UInt8}

/-- A test for narrow characters says of the first byte what it says of the character. -/
theorem onByte_head (ascii : Ascii test) (bytes : octets (c :: text) = byte :: more) :
    onByte test byte = test c := by
  rcases Text.octets_cons_cases c text with ⟨-, -, _, same, back⟩ | ⟨notNarrow, _, _, same, wide, -⟩
  · rw [bytes] at same
    injection same with head
    rw [onByte, head, back]
  · rw [bytes] at same
    injection same with head
    rw [head, ascii.eq_false wide List.mem_cons_self]
    exact (Bool.eq_false_iff.mpr fun holds => notNarrow (ascii c holds)).symm

theorem octets_tail (narrow : Narrow c) (bytes : octets (c :: text) = byte :: more) :
    more = octets text := by
  rw [Text.octets_cons, (Text.encode_narrow narrow).1] at bytes
  injection bytes with _ tail
  exact tail.symm

theorem exists_octets_cons (c : Char) (text : List Char) :
    ∃ byte more, octets (c :: text) = byte :: more := by
  rcases Text.octets_cons_cases c text with ⟨-, -, byte, same, -⟩ | ⟨-, byte, _, same, -, -⟩
  · exact ⟨byte, _, same⟩
  · exact ⟨byte, _, same⟩

private theorem narrow_of_le {c : Char} {limit : UInt32} (low : limit.toNat < 128)
    (bound : c.val ≤ limit) : Narrow c :=
  Nat.lt_of_le_of_lt (UInt32.le_iff_toNat_le.mp bound) low

theorem ascii_isDigit : Ascii Char.isDigit := by
  intro c digit
  simp only [Char.isDigit, Bool.and_eq_true, decide_eq_true_eq] at digit
  exact narrow_of_le (by decide) digit.2

private theorem ascii_isBlank : Ascii Lexer.isBlank := by
  intro c blank
  simp only [Lexer.isBlank, Bool.or_eq_true, beq_iff_eq] at blank
  rcases blank with ((rfl | rfl) | rfl) | rfl <;> decide +kernel

theorem ascii_isWordPart : Ascii Lexer.isWordPart := by
  intro c part
  have kinds : (((c.isUpper || c.isLower) || c.isDigit) || c == '_') = true := part
  simp only [Bool.or_eq_true, beq_iff_eq] at kinds
  rcases kinds with ((upper | lower) | digit) | rfl
  · exact narrow_of_le (by decide) (of_decide_eq_true upper).2
  · exact narrow_of_le (by decide) (of_decide_eq_true (Bool.and_eq_true_iff.mp lower).2)
  · exact ascii_isDigit c digit
  · decide +kernel

private theorem ascii_isWordStart : Ascii Lexer.isWordStart := fun c start =>
  ascii_isWordPart c (Lexer.isWordPart_of_isWordStart start)

end Bytes

variable {inComment : Bool} {pos : Nat} {text : List Char}

private theorem narrow_newline : Narrow '\n' := by decide +kernel

private theorem narrow_hash : Narrow '#' := by decide +kernel

private theorem narrow_quote : Narrow '"' := by decide +kernel

private theorem narrow_backslash : Narrow '\\' := by decide +kernel

private theorem skip_wide {bytes : List UInt8} (wide : Text.Wide bytes) (pos : Nat)
    (rest : List UInt8) :
    skip true pos (bytes ++ rest) = skip true (pos + bytes.length) rest := by
  induction bytes generalizing pos with
  | nil => rfl
  | cons byte bytes ih =>
    have inLine := (Text.ascii_eq narrow_newline).eq_false wide List.mem_cons_self
    rw [List.cons_append, skip, if_pos rfl, inLine, Bool.not_false,
      ih (List.forall_mem_cons.mp wide).2, List.length_cons]
    congr 1
    omega

private theorem skip_octets (inComment : Bool) (pos : Nat) (text : List Char) :
    skip inComment pos (octets text) = (Lexer.skip inComment pos text).1 := by
  induction text generalizing inComment pos with
  | nil => rfl
  | cons c text ih =>
    obtain ⟨byte, more, bytes⟩ := exists_octets_cons c text
    have hash := onByte_head (Text.ascii_eq narrow_hash) bytes
    have blank := onByte_head ascii_isBlank bytes
    rw [Lexer.skip]
    rcases Text.octets_cons_cases c text with ⟨narrow, width, -⟩ |
      ⟨notNarrow, first, tail, same, wide, width⟩
    · have newline := onByte_head (Text.ascii_eq narrow_newline) bytes
      rw [bytes, octets_tail narrow bytes, skip, newline, blank, hash, width]
      simp only [beq_iff_eq, ih, apply_ite Prod.fst]
      rfl
    · cases inComment with
      | false =>
        have noBlank : Lexer.isBlank c = false :=
          Bool.eq_false_iff.mpr fun holds => notNarrow (ascii_isBlank c holds)
        rw [bytes, skip, blank, hash, noBlank]
        simp [Text.ne_of_not_narrow notNarrow narrow_hash]
      | true =>
        have inLine : (c != '\n') = true :=
          bne_iff_ne.mpr (Text.ne_of_not_narrow notNarrow narrow_newline)
        rw [same, ← List.cons_append, skip_wide wide, ih, if_pos rfl, inLine, width,
          List.length_cons]

theorem string_wide {bytes : List UInt8} (wide : Text.Wide bytes) (pos : Nat)
    (rest : List UInt8) :
    string false pos (bytes ++ rest) = string false (pos + bytes.length) rest := by
  induction bytes generalizing pos with
  | nil => rfl
  | cons byte bytes ih =>
    have noQuote := (Text.ascii_eq narrow_quote).eq_false wide List.mem_cons_self
    have noBackslash := (Text.ascii_eq narrow_backslash).eq_false wide List.mem_cons_self
    rw [List.cons_append, string, noQuote, noBackslash, if_neg Bool.false_ne_true,
      if_neg Bool.false_ne_true, ih (List.forall_mem_cons.mp wide).2, List.length_cons]
    congr 1
    omega

private theorem string_escaped (pos : Nat) (c : Char) (text : List Char) :
    string true pos (octets (c :: text)) = string false (pos + c.utf8Size) (octets text) := by
  rcases Text.octets_cons_cases c text with ⟨-, width, byte, bytes, -⟩ |
    ⟨-, byte, more, bytes, wide, width⟩
  · rw [bytes, string, if_pos rfl, width]
  · rw [bytes, string, if_pos rfl, string_wide (List.forall_mem_cons.mp wide).2, width]
    congr 1
    omega

private theorem string_plain (pos : Nat) {c : Char} (noQuote : c ≠ '"') (noBackslash : c ≠ '\\')
    (text : List Char) :
    string false pos (octets (c :: text)) = string false (pos + c.utf8Size) (octets text) := by
  rcases Text.octets_cons_cases c text with ⟨narrow, width, byte, bytes, same⟩ |
    ⟨-, byte, more, bytes, wide, width⟩
  · have quote := onByte_head (Text.ascii_eq narrow_quote) bytes
    have backslash := onByte_head (Text.ascii_eq narrow_backslash) bytes
    rw [bytes, string, quote, backslash, beq_false_of_ne noQuote, beq_false_of_ne noBackslash,
      width]
    rfl
  · rw [bytes, ← List.cons_append, string_wide wide, List.length_cons, width]

/-- A string ends behind the quote that closes it, or with the source. -/
theorem string_octets (pos : Nat) (before text : List Char) :
    match Lexer.closingQuote before text with
    | some (_, after) =>
      ∃ stop, string false pos (octets text) = (.quoted, stop) ∧
        stop + Text.size after = pos + Text.size text
    | none => string false pos (octets text) = (.invalid, pos + Text.size text) := by
  fun_induction Lexer.closingQuote before text generalizing pos with
  | case1 => rfl
  | case2 => rfl
  | case3 before escaped rest ih =>
    have both : string false pos (octets ('\\' :: escaped :: rest)) =
        string false (pos + 1 + escaped.utf8Size) (octets rest) := by
      rw [← string_escaped]
      rfl
    have width : pos + Text.size ('\\' :: escaped :: rest) =
        pos + 1 + escaped.utf8Size + Text.size rest := by
      simp only [Text.size_cons, Nat.add_assoc]
      rfl
    rw [both, width]
    exact ih _
  | case4 before rest => exact ⟨pos + 1, rfl, Nat.add_assoc ..⟩
  | case5 before c rest noEnd noEscape noQuote ih =>
    have noBackslash : c ≠ '\\' := Lexer.ne_backslash noEnd noEscape
    rw [string_plain pos noQuote noBackslash, Text.size_cons, ← Nat.add_assoc]
    exact ih _

theorem length_takeWhile {test : Char → Bool} (ascii : Ascii test) (text : List Char) :
    ((octets text).takeWhile (onByte test)).length = Text.size (text.takeWhile test) := by
  rw [(Text.span_octets ascii text).1, Text.length_octets]

private theorem number_octets (start : Nat) (text : List Char) :
    number start (octets text) =
      ((Lexer.number text).1.kind, start + Text.size (Lexer.number text).1.text) := by
  unfold number Lexer.number
  rw [(Text.span_octets ascii_isDigit text).2, length_takeWhile ascii_isDigit]
  cases text.dropWhile Char.isDigit with
  | nil => rfl
  | cons c behind =>
    obtain ⟨byte, more, bytes⟩ := exists_octets_cons c behind
    have point := onByte_head (Text.ascii_eq (c := '.') (by decide +kernel)) bytes
    simp only [bytes, point]
    by_cases isPoint : c = '.'
    · subst isPoint
      rw [octets_tail (by decide +kernel) bytes]
      cases behind with
      | nil => rfl
      | cons next rest =>
        obtain ⟨first, others, octetsNext⟩ := exists_octets_cons next rest
        have digit := onByte_head ascii_isDigit octetsNext
        rw [length_takeWhile ascii_isDigit, octetsNext, List.head?_cons, Option.any_some, digit]
        cases isDigit : next.isDigit with
        | false => simp [isDigit, Lexeme.kind, Lexeme.text]
        | true =>
          have width : ('.' : Char).utf8Size = 1 := rfl
          simp [isDigit, Lexeme.kind, Lexeme.text, width, Nat.add_assoc]
    · rw [beq_false_of_ne isPoint, Bool.false_and, if_neg Bool.false_ne_true]
      split
      · rename_i same
        injection same with head
        exact absurd head isPoint
      · rfl

private theorem beq_octet {c : Char} (narrow : Narrow c) (byte : UInt8) :
    (c.toUInt8 == byte) = onByte (· == c) byte := by
  have back := (Text.encode_narrow narrow).2
  rw [onByte, Bool.eq_iff_iff, beq_iff_eq, beq_iff_eq]
  constructor
  · rintro rfl
    exact back
  · intro same
    have values : c.toUInt8.toNat = byte.toNat :=
      congrArg Char.toNat (back.trans same.symm)
    exact UInt8.toNat_inj.mp values

private theorem isPrefixOf_octets {fixed : List Char} (narrow : ∀ c ∈ fixed, Narrow c)
    (text : List Char) :
    (octets fixed).isPrefixOf (octets text) = (Text.after? fixed text).isSome := by
  induction fixed generalizing text with
  | nil => rfl
  | cons c fixed ih =>
    obtain ⟨here, behind⟩ := List.forall_mem_cons.mp narrow
    rw [Text.octets_cons, (Text.encode_narrow here).1]
    cases text with
    | nil => rfl
    | cons head text =>
      obtain ⟨byte, more, bytes⟩ := exists_octets_cons head text
      have first := onByte_head (Text.ascii_eq here) bytes
      rw [bytes, List.singleton_append, List.isPrefixOf_cons_cons, beq_octet here, first,
        Text.after?]
      by_cases same : c = head
      · subst same
        rw [octets_tail here bytes, ih behind, if_pos rfl, beq_self_eq_true, Bool.true_and]
      · rw [if_neg same, beq_false_of_ne (Ne.symm same)]
        rfl

private theorem map_findSome?_fst {test : α → Bool} {found : α → Option β} {among : List α}
    (agrees : ∀ a ∈ among, test a = (found a).isSome) :
    (among.findSome? fun a => (found a).map fun b => (a, b)).map Prod.fst = among.find? test := by
  induction among with
  | nil => rfl
  | cons a among ih =>
    obtain ⟨here, behind⟩ := List.forall_mem_cons.mp agrees
    rw [List.findSome?_cons, List.find?_cons, here]
    cases found a with
    | none => exact ih behind
    | some b => rfl

private theorem mark?_octets (text : List Char) :
    mark? (octets text) = (Lexer.mark? text).map Prod.fst := by
  have all : (Symbol.marks.all fun symbol => symbol.spelling.toList.all fun c =>
      decide (Narrow c)) = true := by
    decide +kernel
  have narrow : ∀ symbol ∈ Symbol.marks, ∀ c ∈ symbol.spelling.toList, Narrow c := by
    intro symbol listed c member
    exact of_decide_eq_true (List.all_eq_true.mp (List.all_eq_true.mp all symbol listed) c member)
  exact (map_findSome?_fst fun symbol listed => isPrefixOf_octets (narrow symbol listed) text).symm

private theorem kindFrom_eq {first : Char} {rest : List Char} {byte : UInt8} {more : List UInt8}
    (before : List Char) (bytes : octets (first :: rest) = byte :: more) :
    kindFrom (before ++ first :: rest) (Text.size before) byte more =
      .ok ((Lexer.lexeme first rest).1.kind,
        Text.size before + Text.size (Lexer.lexeme first rest).1.text) := by
  have quote := onByte_head (Text.ascii_eq narrow_quote) bytes
  have digit := onByte_head ascii_isDigit bytes
  have start := onByte_head ascii_isWordStart bytes
  rw [kindFrom, Lexer.lexeme, quote, digit, start, ← bytes]
  by_cases isQuote : first = '"'
  · subst isQuote
    have closed := string_octets (Text.size before + 1) [] rest
    rw [octets_tail narrow_quote bytes, beq_self_eq_true, if_pos rfl, if_pos rfl]
    cases found : Lexer.closingQuote [] rest with
    | none =>
      rw [found] at closed
      simp only [closed, Lexeme.kind, Lexeme.text, Text.size_cons, ← Nat.add_assoc]
      rfl
    | some part =>
      obtain ⟨body, after⟩ := part
      rw [found] at closed
      obtain ⟨stop, read, place⟩ := closed
      have sizes := congrArg Text.size (Lexer.closingQuote_lossless found)
      have width : ('"' : Char).utf8Size = 1 := rfl
      simp only [List.reverse_nil, List.nil_append, Text.size_append, Text.size_cons, width]
        at sizes
      rw [read]
      simp only [Lexeme.kind, Lexeme.text, Text.size_cons, Text.size_append, Text.size_nil, width]
      congr 2
      omega
  rw [beq_false_of_ne isQuote, if_neg Bool.false_ne_true, if_neg isQuote]
  by_cases isDigit : first.isDigit = true
  · rw [if_pos isDigit, if_pos isDigit, number_octets]
  rw [if_neg isDigit, if_neg isDigit]
  by_cases isStart : Lexer.isWordStart first = true
  · have taken := slice_append before ((first :: rest).takeWhile Lexer.isWordPart)
      ((first :: rest).dropWhile Lexer.isWordPart)
    rw [List.append_assoc, List.takeWhile_append_dropWhile] at taken
    rw [if_pos isStart, if_pos isStart, length_takeWhile ascii_isWordPart, Lexer.word_text]
    simp only [taken]
    rfl
  rw [if_neg isStart, if_neg isStart, mark?_octets]
  cases Lexer.mark? (first :: rest) with
  | some found => rfl
  | none =>
    have whole := slice_append before (first :: rest) []
    rw [List.append_nil] at whole
    simp only [Option.map_none, Text.size_append, whole]
    rfl

section Scan

variable {source before text : List Char}

private theorem placed_eq (kind : TokenKind) {start stop : Nat} (ordered : start ≤ stop)
    (fits : stop < UInt32.size) : placed kind start stop = .ok ⟨kind, ⟨start, stop⟩⟩ := by
  rw [placed, offset32_eq (Nat.lt_of_le_of_lt ordered fits), offset32_eq fits, range_eq ordered]
  rfl

private theorem skip_eq (before text : List Char) :
    skip false (Text.size before) ((octets (before ++ text)).drop (Text.size before)) =
      (Lexer.skip false (Text.size before) text).1 := by
  rw [Text.drop_octets, skip_octets]

/-- One scan from a place in the source gives the next token and leaves the scanner behind it. -/
theorem scan_eq (split : source = before ++ text) (fits : Text.size source < UInt32.size) :
    ∃ front, source = front ++ (Lexer.next (Text.size before) text).2 ∧
      (Lexer.next (Text.size before) text).1.stop = Text.size front ∧
      scan source (Text.size before) =
        .ok ((Lexer.next (Text.size before) text).1.placed, Text.size front) := by
  subst split
  rw [scan, skip_eq]
  cases found : Lexer.skip false (Text.size before) text with
  | mk start remaining =>
    cases remaining with
    | nil =>
      have same : Lexer.next (Text.size before) text = (Token.atEnd start, []) := by
        rw [Lexer.next, found]
      have place : start = Text.size (before ++ text) := by
        rw [(Lexer.skip_to_end found).2, Text.size_append]
      have none : (octets (before ++ text)).drop start = [] := by
        rw [place, ← Text.length_octets, List.drop_length]
      refine ⟨before ++ text, by rw [same, List.append_nil], by rw [same, place]; rfl, ?_⟩
      simp only [none, same]
      rw [place, placed_eq _ (Nat.le_refl _) fits]
      rfl
    | cons first rest =>
      obtain ⟨gap, split, place, -⟩ := Lexer.skip_to_lexeme found
      have same : Lexer.next (Text.size before) text =
          (⟨(Lexer.lexeme first rest).1, start⟩, (Lexer.lexeme first rest).2) := by
        rw [Lexer.next, found]
      have whole := Lexer.lexeme_lossless first rest
      obtain ⟨byte, more, bytes⟩ := exists_octets_cons first rest
      have behind : (octets (before ++ text)).drop start = byte :: more := by
        rw [place, ← Text.size_append, split, ← List.append_assoc, Text.drop_octets, bytes]
      have read := kindFrom_eq (before ++ gap) bytes
      rw [List.append_assoc, ← split, Text.size_append, ← place] at read
      have sizes : start + Text.size (Lexer.lexeme first rest).1.text ≤
          Text.size (before ++ text) := by
        rw [split, ← whole, place]
        simp only [Text.size_append]
        omega
      refine ⟨before ++ gap ++ (Lexer.lexeme first rest).1.text, ?_, ?_, ?_⟩
      · rw [same, List.append_assoc, whole, List.append_assoc, ← split]
      · rw [same, Token.stop, Text.size_append, Text.size_append, place]
        rfl
      · have ends := placed_eq (Lexer.lexeme first rest).1.kind (Nat.le_add_right start _)
          (Nat.lt_of_le_of_lt sizes fits)
        simp only [behind, read, same, Text.size_append]
        rw [← place]
        simp only [bind, Except.bind, ends]
        rfl

/-- Scan after scan gives token after token, and the end of the source for ever. -/
theorem scans_eq (count : Nat) (split : source = before ++ text)
    (fits : Text.size source < UInt32.size) :
    scans source count (Text.size before) =
      .ok ((List.range count).map fun index =>
        (Lexer.tokenFrom (Text.size before) text index).placed) := by
  induction count generalizing before text with
  | zero => rfl
  | succ count ih =>
    obtain ⟨front, rest, place, read⟩ := scan_eq split fits
    obtain ⟨first, others⟩ := Lexer.next_tokenFrom (Text.size before) text
    have behind := ih rest
    rw [← place] at behind
    simp only [others] at behind
    rw [scans, read, List.range_succ_eq_map, List.map_cons, List.map_map, ← place, first]
    rw [first] at behind
    simp only [bind, Except.bind, behind]
    rfl

/-- The same for all of the source. -/
theorem scans_tokenAt (count : Nat) (fits : Text.size source < UInt32.size) :
    scans source count 0 =
      .ok ((List.range count).map fun index => (Lexer.tokenAt source index).placed) := by
  have read := scans_eq count (List.nil_append source).symm fits
  rwa [Text.size_nil, Lexer.tokenFrom_zero] at read

end Scan

private theorem length_tokens_le (source : List Char) :
    (Lexer.tokens source).length ≤ Text.size source := by
  have counted : ∀ {offset text tokens}, Lexer.Tiles offset text tokens →
      tokens.length ≤ Text.size text := by
    intro offset text tokens tiles
    induction tiles with
    | done => exact Nat.zero_le _
    | token _ present _ _ ih =>
      have positive := Text.size_pos_of_ne_nil present
      simp only [List.length_cons, Text.size_append]
      omega
  exact counted (Lexer.tokensFrom_tiles 0 source)

private theorem map_tokenAt (source : List Char) :
    (List.range (Lexer.tokens source).length).map (Lexer.tokenAt source) = Lexer.tokens source := by
  apply List.ext_getElem (by simp)
  intro index inside _
  rw [List.length_map, List.length_range] at inside
  rw [List.getElem_map, List.getElem_range, Lexer.tokenAt, List.getElem?_eq_getElem inside]
  rfl

/-- Scanning as often as there are bytes reads all tokens, and no operation fails. -/
theorem tokens_eq {source : List Char} (fits : Text.size source < UInt32.size) :
    tokens source = .ok ((Lexer.tokens source).map Token.placed) := by
  obtain ⟨more, count⟩ := Nat.exists_eq_add_of_le (length_tokens_le source)
  have kept : ∀ token ∈ (Lexer.tokens source).map Token.placed,
      (token.kind != .endOfInput) = true := by
    intro placed member
    obtain ⟨token, listed, rfl⟩ := List.mem_map.mp member
    exact bne_iff_ne.mpr (Lexer.kind_ne_endOfInput (Lexer.tokens_proper source token listed))
  have dropped : ∀ token ∈ ((List.range more).map ((Lexer.tokens source).length + ·)).map
      (fun index => (Lexer.tokenAt source index).placed), ¬ (token.kind != .endOfInput) = true := by
    intro placed member
    obtain ⟨index, listed, rfl⟩ := List.mem_map.mp member
    obtain ⟨distance, -, rfl⟩ := List.mem_map.mp listed
    rw [Lexer.tokenAt, List.getElem?_eq_none (Nat.le_add_right ..)]
    exact Bool.false_ne_true
  have front := congrArg (List.map Token.placed) (map_tokenAt source)
  rw [List.map_map] at front
  rw [tokens, scans_tokenAt _ fits, Except.map, count, List.range_add, List.map_append,
    List.filter_append, List.filter_eq_nil_iff.mpr dropped, List.append_nil]
  exact congrArg Except.ok ((congrArg _ front).trans (List.filter_eq_self.mpr kept))

end Checked

end ClamSyntax
