import ClamSyntax.Literal
import ClamSyntax.Proofs.Token.LongestMatch

/-! Strings as they are written. What stands between the quotes is a row of units: a character
for itself, or a backslash with a letter behind it. A string denotes what its units mean, one by
one, and the first unit that means nothing is the one that is reported. -/

namespace ClamSyntax

inductive StringUnit where
  | plain (c : Char)
  | escape (letter : Char)
  deriving DecidableEq, Repr

namespace StringUnit

def text : StringUnit → List Char
  | plain c => [c]
  | escape letter => ['\\', letter]

/-- The letters of escapes and the characters that they stand for. -/
def letters : List (Char × Char) :=
  [('n', '\n'), ('r', '\r'), ('t', '\t'), ('0', '\x00'), ('"', '"'), ('\\', '\\')]

def meaning? : StringUnit → Option Char
  | plain c => some c
  | escape letter => letters.lookup letter

/-- The unit neither ends the string nor begins another unit. -/
def Enclosed : StringUnit → Prop
  | plain c => c ≠ '"' ∧ c ≠ '\\'
  | escape _ => True

instance : DecidablePred Enclosed
  | plain c => inferInstanceAs (Decidable (c ≠ '"' ∧ c ≠ '\\'))
  | escape _ => inferInstanceAs (Decidable True)

/-- The units, read from left to right, are those of the text between two quotes. -/
structure Spell (units : List StringUnit) (body : List Char) : Prop where
  enclosed : ∀ unit ∈ units, unit.Enclosed
  spelled : units.flatMap text = body

/-- Every unit means something, and together they mean the text. -/
def Denote (units : List StringUnit) (value : List Char) : Prop :=
  units.map meaning? = value.map some

instance (units : List StringUnit) (value : List Char) : Decidable (Denote units value) :=
  inferInstanceAs (Decidable (units.map meaning? = value.map some))

/-- The units up to an escape all mean something, and the escape does not. -/
structure FirstUnknown (units front : List StringUnit) (letter : Char) : Prop where
  ahead : front ++ [escape letter] <+: units
  known : ∃ value, Denote front value
  unknown : letters.lookup letter = none

/-- The range of a unit behind others, in a string that starts at the offset with its quote. -/
def range (start : Nat) (front : List StringUnit) (unit : StringUnit) : Span :=
  let offset := start + 1 + Text.size (front.flatMap text)
  ⟨offset, offset + Text.size unit.text⟩

/-! ### Units and texts -/

theorem denote_cons {unit : StringUnit} {units : List StringUnit} {value : List Char} :
    Denote (unit :: units) value ↔
      ∃ c rest, value = c :: rest ∧ unit.meaning? = some c ∧ Denote units rest := by
  rw [Denote, List.map_cons]
  constructor
  · intro same
    obtain ⟨c, rest, rfl, means, denote⟩ := List.map_eq_cons_iff.mp same.symm
    exact ⟨c, rest, rfl, means.symm, denote.symm⟩
  · rintro ⟨c, rest, rfl, means, denote⟩
    rw [means, List.map_cons, denote]

theorem spell_cons {unit : StringUnit} {units : List StringUnit} {body : List Char}
    (enclosed : unit.Enclosed) (spell : Spell units body) :
    Spell (unit :: units) (unit.text ++ body) :=
  ⟨List.forall_mem_cons.mpr ⟨enclosed, spell.enclosed⟩, congrArg (unit.text ++ ·) spell.spelled⟩

/-- The text between two quotes is that of some units. -/
theorem exists_spell {body : List Char} (proper : Lexer.isStringBody body = true) :
    ∃ units, Spell units body := by
  have inside := Lexer.stringBody_iff.mpr proper
  clear proper
  induction inside with
  | empty => exact ⟨[], List.forall_mem_nil _, rfl⟩
  | @plain c rest noQuote noBackslash _ ih =>
    obtain ⟨units, spell⟩ := ih
    exact ⟨plain c :: units, spell_cons ⟨noQuote, noBackslash⟩ spell⟩
  | @escaped letter rest _ ih =>
    obtain ⟨units, spell⟩ := ih
    exact ⟨escape letter :: units, spell_cons trivial spell⟩

/-- Enclosed units stand between two quotes. -/
theorem Spell.isStringBody {units : List StringUnit} {body : List Char} (spell : Spell units body) :
    Lexer.isStringBody body = true := by
  obtain ⟨enclosed, rfl⟩ := spell
  apply Lexer.stringBody_iff.mp
  induction units with
  | nil => exact .empty
  | cons unit units ih =>
    obtain ⟨first, others⟩ := List.forall_mem_cons.mp enclosed
    cases unit with
    | plain c => exact .plain first.1 first.2 (ih others)
    | escape letter => exact .escaped letter (ih others)

/-- A text is that of one row of units only. -/
theorem Spell.unique {units others : List StringUnit} {body : List Char} (spell : Spell units body)
    (spellOther : Spell others body) : others = units := by
  obtain ⟨enclosed, rfl⟩ := spell
  obtain ⟨enclosedOther, same⟩ := spellOther
  induction units generalizing others with
  | nil =>
    cases others with
    | nil => rfl
    | cons other others => cases other <;> cases same
  | cons unit units ih =>
    obtain ⟨first, behind⟩ := List.forall_mem_cons.mp enclosed
    cases others with
    | nil => cases unit <;> cases same
    | cons other others =>
      obtain ⟨firstOther, behindOther⟩ := List.forall_mem_cons.mp enclosedOther
      cases unit with
      | plain c =>
        cases other with
        | plain other =>
          obtain ⟨rfl, rest⟩ := List.cons.inj same
          rw [ih behind behindOther rest]
        | escape letter => exact absurd (List.cons.inj same).1.symm first.2
      | escape letter =>
        cases other with
        | plain other => exact absurd (List.cons.inj same).1 firstOther.2
        | escape other =>
          obtain ⟨-, same⟩ := List.cons.inj same
          obtain ⟨rfl, rest⟩ := List.cons.inj same
          rw [ih behind behindOther rest]

/-- Every text can be written: the quote and the backslash as escapes, all else for itself. -/
theorem exists_spelling (value : List Char) :
    ∃ units body, Spell units body ∧ Denote units value := by
  induction value with
  | nil => exact ⟨[], [], ⟨List.forall_mem_nil _, rfl⟩, rfl⟩
  | cons c rest ih =>
    obtain ⟨units, body, spell, denote⟩ := ih
    have written : ∃ unit : StringUnit, unit.Enclosed ∧ unit.meaning? = some c := by
      by_cases quote : c = '"'
      · exact ⟨escape '"', trivial, by rw [quote]; rfl⟩
      · by_cases backslash : c = '\\'
        · exact ⟨escape '\\', trivial, by rw [backslash]; rfl⟩
        · exact ⟨plain c, ⟨quote, backslash⟩, rfl⟩
    obtain ⟨unit, enclosed, means⟩ := written
    exact ⟨unit :: units, unit.text ++ body, spell_cons enclosed spell,
      denote_cons.mpr ⟨c, rest, rfl, means, denote⟩⟩

/-- Units mean a text, or one of them is the first that means nothing. -/
theorem denote_or_firstUnknown (units : List StringUnit) :
    (∃ value, Denote units value) ∨ ∃ front letter, FirstUnknown units front letter := by
  induction units with
  | nil => exact .inl ⟨[], rfl⟩
  | cons unit units ih =>
    cases means : unit.meaning? with
    | none =>
      cases unit with
      | plain c => cases means
      | escape letter => exact .inr ⟨[], letter, ⟨units, rfl⟩, ⟨[], rfl⟩, means⟩
    | some c =>
      rcases ih with ⟨value, denote⟩ | ⟨front, letter, ⟨back, split⟩, ⟨value, denote⟩, unknown⟩
      · exact .inl ⟨c :: value, denote_cons.mpr ⟨c, value, rfl, means, denote⟩⟩
      · refine .inr ⟨unit :: front, letter, ⟨back, ?_⟩, ⟨c :: value, ?_⟩, unknown⟩
        · rw [List.cons_append, List.cons_append, split]
        · exact denote_cons.mpr ⟨c, value, rfl, means, denote⟩

/-! ### Resolving escapes -/

theorem escaped?_eq (letter : Char) : Literal.escaped? letter = letters.lookup letter := by
  unfold Literal.escaped?
  split
  case h_7 =>
    have unlisted : letters.lookup letter = none :=
      List.lookup_eq_none_iff.mpr (by simp_all [letters])
    rw [unlisted]
  all_goals rfl

private theorem unescapeFrom_plain {c : Char} (plain : c ≠ '\\') (before : List Char) (offset : Nat)
    (rest : List Char) : Literal.unescapeFrom before offset (c :: rest) =
      Literal.unescapeFrom (c :: before) (offset + c.utf8Size) rest := by
  rw [Literal.unescapeFrom.eq_def]
  split <;> simp_all

/-- A unit that means something is resolved to it, and the offset runs on behind the unit. -/
theorem unescapeFrom_unit {unit : StringUnit} (enclosed : unit.Enclosed) {c : Char}
    (means : unit.meaning? = some c) (before : List Char) (offset : Nat) (rest : List Char) :
    Literal.unescapeFrom before offset (unit.text ++ rest) =
      Literal.unescapeFrom (c :: before) (offset + Text.size unit.text) rest := by
  cases unit with
  | plain c =>
    cases means
    exact unescapeFrom_plain enclosed.2 before offset rest
  | escape letter =>
    rw [meaning?, ← escaped?_eq] at means
    simp only [text, List.cons_append, List.nil_append, Literal.unescapeFrom, means]
    rw [Nat.add_assoc]
    rfl

/-- Units that mean a text are resolved to it, whatever stands behind them. -/
theorem unescapeFrom_units {units : List StringUnit} (enclosed : ∀ unit ∈ units, unit.Enclosed)
    {value : List Char} (denote : Denote units value) (before : List Char) (offset : Nat)
    (rest : List Char) :
    Literal.unescapeFrom before offset (units.flatMap text ++ rest) =
      Literal.unescapeFrom (value.reverse ++ before) (offset + Text.size (units.flatMap text))
        rest := by
  induction units generalizing value before offset with
  | nil =>
    cases List.map_eq_nil_iff.mp denote.symm
    rfl
  | cons unit units ih =>
    obtain ⟨here, behind⟩ := List.forall_mem_cons.mp enclosed
    obtain ⟨c, value, rfl, means, others⟩ := denote_cons.mp denote
    rw [List.flatMap_cons, List.append_assoc, unescapeFrom_unit here means, ih behind others,
      List.reverse_cons, List.append_assoc, Text.size_append, Nat.add_assoc]
    rfl

/-- If every unit means something, the text denotes what they mean. -/
theorem Spell.unescape {units : List StringUnit} {body value : List Char} (spell : Spell units body)
    (denote : Denote units value) : Literal.unescape body = .ok value := by
  have resolved := unescapeFrom_units spell.enclosed denote [] 0 []
  rw [List.append_nil, List.append_nil, spell.spelled] at resolved
  rw [Literal.unescape, resolved, Literal.unescapeFrom, List.reverse_reverse]

/-- Otherwise the first escape that means nothing is reported, at its backslash. -/
theorem Spell.unescape_unknown {units front : List StringUnit} {body : List Char} {letter : Char}
    (spell : Spell units body) (first : FirstUnknown units front letter) :
    Literal.unescape body = .error ⟨Text.size (front.flatMap text), letter⟩ := by
  obtain ⟨enclosed, rfl⟩ := spell
  obtain ⟨⟨back, rfl⟩, ⟨value, denote⟩, unknown⟩ := first
  have front_enclosed : ∀ unit ∈ front, unit.Enclosed := fun unit member =>
    enclosed unit (List.mem_append_left _ (List.mem_append_left _ member))
  rw [← escaped?_eq] at unknown
  rw [Literal.unescape, List.append_assoc, List.flatMap_append,
    unescapeFrom_units front_enclosed denote, Nat.zero_add]
  simp only [List.flatMap_cons, text, List.cons_append, List.nil_append,
    Literal.unescapeFrom, unknown]

/-- What is reported of a text between quotes is a backslash in it and the letter behind. -/
theorem exists_of_bad_escape {body : List Char} {fault : Literal.BadEscape}
    (proper : Lexer.isStringBody body = true) (bad : Literal.unescape body = .error fault) :
    ∃ front back, body = front ++ ['\\', fault.escape] ++ back ∧
      fault.offset = Text.size front := by
  obtain ⟨units, spell⟩ := exists_spell proper
  rcases denote_or_firstUnknown units with ⟨value, denote⟩ | ⟨front, letter, first⟩
  · rw [spell.unescape denote] at bad
    cases bad
  · rw [spell.unescape_unknown first] at bad
    cases bad
    obtain ⟨back, split⟩ := first.ahead
    refine ⟨front.flatMap text, back.flatMap text, ?_, rfl⟩
    rw [← spell.spelled, ← split, List.flatMap_append, List.flatMap_append]
    rfl

end StringUnit

/-- The value of a string is the text that it denotes. -/
theorem Literal.value?_of_unescape {body : List Char} {result : Except BadEscape (List Char)}
    (resolved : unescape body = result) :
    value? (.quoted body) = some (result.map fun text => .str (String.ofList text)) := by
  rw [value?, resolved]

end ClamSyntax
