import ClamSyntax.Proofs.Token.Spelling
import ClamSyntax.Text.Printable
import ClamSyntax.Text.Quoted
import Mathlib

/-! Written forms that can be told apart. A form is self-delimiting if it shows where it ends,
whatever follows it: numbers before anything that is no digit, quoted text, and sequences of such
forms. -/

namespace ClamSyntax.Text

/-- The character stands in no run of the class: the text behind the run begins otherwise. -/
def Ends (p : Char → Bool) (rest : List Char) : Prop := ∀ c ∈ rest.head?, p c = false

/-- A run of a class ends where a character of another class begins. -/
theorem run_unique {p : Char → Bool} {first second rest other : List Char}
    (all : ∀ c ∈ first, p c = true) (ends : Ends p rest)
    (allOther : ∀ c ∈ second, p c = true) (endsOther : Ends p other)
    (same : first ++ rest = second ++ other) : first = second ∧ rest = other := by
  have runs := congrArg (List.takeWhile p) same
  have behind := congrArg (List.dropWhile p) same
  rw [Lexer.takeWhile_before all ends, Lexer.takeWhile_before allOther endsOther] at runs
  rw [Lexer.dropWhile_before all ends, Lexer.dropWhile_before allOther endsOther] at behind
  exact ⟨runs, behind⟩

/-- Whatever stands behind them, two written things are told apart and end at one place. -/
def SelfDelimiting (write : α → List Char) : Prop :=
  ∀ ⦃first second rest other⦄, write first ++ rest = write second ++ other →
    first = second ∧ rest = other

namespace SelfDelimiting

variable {write : α → List Char}

/-- What is written for a sequence determines it if no item is written as nothing. -/
theorem flatMap_injective (delimited : SelfDelimiting write) (visible : ∀ item, write item ≠ []) :
    Function.Injective fun items : List α => items.flatMap write := by
  intro first
  induction first with
  | nil =>
    intro second same
    cases second with
    | nil => rfl
    | cons item second =>
      have nothing : write item ++ second.flatMap write = [] := same.symm
      exact absurd (List.append_eq_nil_iff.mp nothing).1 (visible item)
  | cons item first ih =>
    intro second same
    cases second with
    | nil =>
      have nothing : write item ++ first.flatMap write = [] := same
      exact absurd (List.append_eq_nil_iff.mp nothing).1 (visible item)
    | cons other second =>
      obtain ⟨rfl, rest⟩ := delimited same
      rw [ih rest]

/-- Sequences are self-delimiting with a character behind them that begins no item. -/
theorem sequence (delimited : SelfDelimiting write) {stop : Char}
    (starts : ∀ item, ∃ first rest, write item = first :: rest ∧ first ≠ stop) :
    SelfDelimiting fun items : List α => items.flatMap write ++ [stop] := by
  have noItem {item : α} {others behind rest : List Char} :
      stop :: behind ≠ write item ++ others ++ rest := by
    obtain ⟨first, tail, spelled, different⟩ := starts item
    intro same
    rw [spelled] at same
    exact different (List.cons.inj same).1.symm
  intro first
  induction first with
  | nil =>
    intro second rest other same
    cases second with
    | nil => exact ⟨rfl, (List.cons.inj same).2⟩
    | cons item second =>
      simp only [List.flatMap_nil, List.nil_append, List.flatMap_cons, List.append_assoc] at same
      exact absurd (same.trans (List.append_assoc ..).symm) noItem
  | cons item first ih =>
    intro second rest other same
    cases second with
    | nil =>
      simp only [List.flatMap_nil, List.nil_append, List.flatMap_cons, List.append_assoc] at same
      exact absurd (same.symm.trans (List.append_assoc ..).symm) noItem
    | cons head second =>
      simp only [List.flatMap_cons, List.append_assoc] at same
      obtain ⟨rfl, others⟩ := delimited same
      simp only [← List.append_assoc] at others
      obtain ⟨rfl, behind⟩ := ih others
      exact ⟨rfl, behind⟩

end SelfDelimiting

/-! Numbers -/

theorem exists_digitChar {base number : Nat} (large : 1 < base) {c : Char}
    (member : c ∈ Nat.toDigits base number) : ∃ digit < base, c = Nat.digitChar digit := by
  induction number using Nat.strong_induction_on with
  | _ number ih =>
    rw [Nat.toDigits_eq_if large] at member
    split at member
    · rename_i small
      exact ⟨number, small, List.mem_singleton.mp member⟩
    · rename_i notSmall
      rcases List.mem_append.mp member with front | last
      · exact ih _ (Nat.div_lt_self (by omega) large) front
      · exact ⟨_, Nat.mod_lt _ (by omega), List.mem_singleton.mp last⟩

theorem digitChar_injective {first second : Nat} (low : first < 16) (lowOther : second < 16)
    (same : Nat.digitChar first = Nat.digitChar second) : first = second := by
  have distinct : ∀ first < 16, ∀ second < 16,
      Nat.digitChar first = Nat.digitChar second → first = second := by decide
  exact distinct first low second lowOther same

theorem toDigits_injective {base : Nat} (large : 1 < base) (small : base ≤ 16) :
    Function.Injective (Nat.toDigits base) := by
  -- the last digit is the remainder, and the others are the digits of the quotient
  intro first
  induction first using Nat.strong_induction_on with
  | _ first ih =>
    intro second same
    rw [Nat.toDigits_eq_if (n := first) large, Nat.toDigits_eq_if (n := second) large] at same
    have sizes := congrArg List.length same
    by_cases low : first < base <;> by_cases lowOther : second < base
    · rw [if_pos low, if_pos lowOther] at same
      exact digitChar_injective (by omega) (by omega) (List.singleton_inj.mp same)
    · simp [low, lowOther] at sizes
    · simp [low, lowOther] at sizes
    · rw [if_neg low, if_neg lowOther] at same
      obtain ⟨front, last⟩ := List.append_inj' same rfl
      have quotients := ih _ (Nat.div_lt_self (by omega) large) front
      have remainders := digitChar_injective
        (Nat.lt_of_lt_of_le (Nat.mod_lt first (by omega)) small)
        (Nat.lt_of_lt_of_le (Nat.mod_lt second (by omega)) small) (List.singleton_inj.mp last)
      rw [← Nat.div_add_mod first base, ← Nat.div_add_mod second base, quotients, remainders]

theorem isDigit_of_mem_toString {number : Nat} {c : Char}
    (member : c ∈ (toString number).toList) : c.isDigit = true := by
  rw [Nat.toString_eq_repr, Nat.toList_repr] at member
  exact Nat.isDigit_of_mem_toDigits (by omega) (by omega) member

/-- A number is told from another one by what stands before the first character that is no
digit. -/
theorem number_unique {first second : Nat} {rest other : List Char}
    (ends : Ends Char.isDigit rest) (endsOther : Ends Char.isDigit other)
    (same : (toString first).toList ++ rest = (toString second).toList ++ other) :
    first = second ∧ rest = other := by
  obtain ⟨digits, behind⟩ := run_unique (fun _ => isDigit_of_mem_toString) ends
    (fun _ => isDigit_of_mem_toString) endsOther same
  rw [Nat.toString_eq_repr, Nat.toString_eq_repr, Nat.toList_repr, Nat.toList_repr] at digits
  exact ⟨toDigits_injective (by omega) (by omega) digits, behind⟩

/-! Integers -/

/-- The characters of integers. -/
def isIntegerPart (c : Char) : Bool := c.isDigit || c == '-'

theorem toList_natural (number : Nat) :
    (toString (Int.ofNat number)).toList = (toString number).toList := by
  rw [Int.toString_eq_repr, Nat.toString_eq_repr, Int.repr]

theorem toList_negative (number : Nat) :
    (toString (Int.negSucc number)).toList = '-' :: (toString (number + 1)).toList := by
  rw [Int.toString_eq_repr, Nat.toString_eq_repr, Int.repr, String.toList_append]
  rfl

theorem toList_integer_ne_nil (number : Int) : (toString number).toList ≠ [] := by
  cases number with
  | ofNat number =>
    rw [toList_natural, Nat.toString_eq_repr, Nat.toList_repr]
    exact Nat.toDigits_ne_nil
  | negSucc number =>
    rw [toList_negative]
    exact List.cons_ne_nil _ _

theorem integer_parts (number : Int) : ∀ c ∈ (toString number).toList, isIntegerPart c = true := by
  have digits (number : Nat) : ∀ c ∈ (toString number).toList, isIntegerPart c = true := by
    intro c member
    rw [isIntegerPart, isDigit_of_mem_toString member]
    rfl
  cases number with
  | ofNat number =>
    rw [toList_natural]
    exact digits number
  | negSucc number =>
    rw [toList_negative]
    exact List.forall_mem_cons.mpr ⟨rfl, digits (number + 1)⟩

private theorem toList_natural_injective {first second : Nat}
    (same : (toString first).toList = (toString second).toList) : first = second := by
  have ended : (toString first).toList ++ [] = (toString second).toList ++ [] :=
    congrArg (· ++ []) same
  have noMore : Ends Char.isDigit [] := nofun
  exact (number_unique noMore noMore ended).1

theorem toList_integer_injective {first second : Int}
    (same : (toString first).toList = (toString second).toList) : first = second := by
  have noMinus {number : Nat} {rest : List Char} : (toString number).toList ≠ '-' :: rest := by
    intro same
    have digit : ('-' : Char).isDigit = true :=
      isDigit_of_mem_toString (same ▸ List.mem_cons_self)
    cases digit
  cases first with
  | ofNat first =>
    rw [toList_natural] at same
    cases second with
    | ofNat second =>
      rw [toList_natural] at same
      rw [toList_natural_injective same]
    | negSucc second =>
      rw [toList_negative] at same
      exact absurd same noMinus
  | negSucc first =>
    rw [toList_negative] at same
    cases second with
    | ofNat second =>
      rw [toList_natural] at same
      exact absurd same.symm noMinus
    | negSucc second =>
      rw [toList_negative] at same
      rw [Nat.succ.inj (toList_natural_injective (List.cons.inj same).2)]

/-! Characters that can be seen -/

/-- The characters from the space to the tilde. -/
def isPrintableAscii (c : Char) : Bool := 0x20 ≤ c.toNat && c.toNat ≤ 0x7e

theorem isPrintable_of_ascii {c : Char} (ascii : isPrintableAscii c = true) :
    isPrintable c = true := by
  obtain ⟨low, high⟩ := (Bool.and_eq_true _ _).mp ascii
  have below := Nat.lt_succ_of_le (of_decide_eq_true high)
  rw [isPrintable, if_pos below]
  exact low

theorem isPrintableAscii_of_mem_toDigits {base number : Nat} (large : 1 < base)
    (small : base ≤ 16) {c : Char} (member : c ∈ Nat.toDigits base number) :
    isPrintableAscii c = true := by
  obtain ⟨digit, low, rfl⟩ := exists_digitChar large member
  have ascii : ∀ digit < 16, isPrintableAscii (Nat.digitChar digit) = true := by decide
  exact ascii digit (Nat.lt_of_lt_of_le low small)

theorem isPrintableAscii_of_mem_toString {number : Nat} {c : Char}
    (member : c ∈ (toString number).toList) : isPrintableAscii c = true := by
  rw [Nat.toString_eq_repr, Nat.toList_repr] at member
  exact isPrintableAscii_of_mem_toDigits (by omega) (by omega) member

/-! Quoted text -/

theorem isPrintableAscii_of_mem_bracedCode {c shown : Char} (member : shown ∈ bracedCode c) :
    isPrintableAscii shown = true := by
  have opening : ['\\', 'u', '{'].all isPrintableAscii = true := by decide
  have closing : ['}'].all isPrintableAscii = true := by decide
  have spelled : bracedCode c = ['\\', 'u', '{'] ++ (hexDigits c ++ ['}']) := rfl
  rw [spelled, List.mem_append, List.mem_append] at member
  rcases member with before | digit | behind
  · exact List.all_eq_true.mp opening shown before
  · exact isPrintableAscii_of_mem_toDigits (by omega) (by omega) digit
  · exact List.all_eq_true.mp closing shown behind

private theorem bracedCode_selfDelimiting : SelfDelimiting bracedCode := by
  intro first second rest other same
  have noBrace {c digit : Char} (member : digit ∈ hexDigits c) : (digit != '}') = true := by
    obtain ⟨place, low, rfl⟩ := exists_digitChar (by omega) member
    have apart : ∀ place < 16, (Nat.digitChar place != '}') = true := by decide
    exact apart place low
  have inner : hexDigits first ++ '}' :: rest = hexDigits second ++ '}' :: other := by
    simpa [bracedCode] using same
  have brace (behind : List Char) : Ends (· != '}') ('}' :: behind) := by
    intro c head
    cases head
    rfl
  obtain ⟨digits, behind⟩ := run_unique (fun _ => noBrace) (brace rest) (fun _ => noBrace)
    (brace other) inner
  have codes := toDigits_injective (by omega) (by omega) digits
  exact ⟨Char.toNat_inj.mp codes, (List.cons.inj behind).2⟩

namespace Quoting

/-- What is written between the quotes can be read back: no two characters have one escape, quote
and backslash never stand as they are, and a code is told from the escapes by its `u` and shows
where it ends. -/
structure Legible (quoting : Quoting) : Prop where
  letter_injective : ∀ ⦃c d letter⦄, quoting.letter? c = some letter →
    quoting.letter? d = some letter → c = d
  letter_ne : ∀ c, quoting.letter? c ≠ some 'u'
  reserved : ∀ c, quoting.letter? c = none → quoting.plain c = true → c ≠ '"' ∧ c ≠ '\\'
  marked : ∀ c, ∃ rest, quoting.coded c = '\\' :: 'u' :: rest
  coded_unique : ∀ ⦃c d rest other⦄, quoting.letter? c = none → quoting.plain c = false →
    quoting.letter? d = none → quoting.plain d = false →
      quoting.coded c ++ rest = quoting.coded d ++ other → c = d ∧ rest = other

variable {quoting : Quoting}

/-- The three ways in which a character is written. -/
theorem char_cases (quoting : Quoting) (c : Char) :
    (∃ letter, quoting.letter? c = some letter ∧ quoting.char c = ['\\', letter]) ∨
    (quoting.letter? c = none ∧ quoting.plain c = true ∧ quoting.char c = [c]) ∨
    (quoting.letter? c = none ∧ quoting.plain c = false ∧ quoting.char c = quoting.coded c) := by
  rw [char]
  cases quoting.letter? c with
  | some letter => exact .inl ⟨letter, rfl, rfl⟩
  | none =>
    cases quoting.plain c with
    | true => exact .inr (.inl ⟨rfl, rfl, rfl⟩)
    | false => exact .inr (.inr ⟨rfl, rfl, rfl⟩)

/-- What holds of the quote, the backslash, the letters of the escapes, the plain characters and
those of the codes holds of all that is written for a text. -/
theorem forall_mem_quote {shows : Char → Prop} (mark : shows '"') (backslash : shows '\\')
    (letter : ∀ c letter, quoting.letter? c = some letter → shows letter)
    (plain : ∀ c, quoting.plain c = true → shows c)
    (coded : ∀ c, ∀ shown ∈ quoting.coded c, shows shown) (text : List Char) :
    ∀ shown ∈ quoting.quote text, shows shown := by
  have chars (c : Char) : ∀ shown ∈ quoting.char c, shows shown := by
    rcases quoting.char_cases c with ⟨escape, found, written⟩ | ⟨-, asIs, written⟩ |
      ⟨-, -, written⟩ <;>
    rw [written]
    · exact List.forall_mem_cons.mpr ⟨backslash, List.forall_mem_singleton.mpr (letter c _ found)⟩
    · exact List.forall_mem_singleton.mpr (plain c asIs)
    · exact coded c
  refine List.forall_mem_cons.mpr ⟨mark, List.forall_mem_append.mpr ⟨?_, ?_⟩⟩
  · exact List.forall_mem_flatMap.mpr fun c _ => chars c
  · exact List.forall_mem_singleton.mpr mark

namespace Legible

variable (legible : quoting.Legible)

include legible

private theorem char_selfDelimiting : SelfDelimiting quoting.char := by
  intro c d rest other same
  rcases quoting.char_cases c with ⟨letter, escape, written⟩ | ⟨noEscape, plain, written⟩ |
    ⟨noEscape, coded, written⟩ <;>
  rcases quoting.char_cases d with ⟨letterOther, escapeOther, writtenOther⟩ |
    ⟨noEscapeOther, plainOther, writtenOther⟩ | ⟨noEscapeOther, codedOther, writtenOther⟩ <;>
  rw [written, writtenOther] at same
  · obtain ⟨-, behind⟩ := List.cons.inj same
    obtain ⟨letters, behind⟩ := List.cons.inj behind
    exact ⟨legible.letter_injective escape (letters ▸ escapeOther), behind⟩
  · exact absurd (List.cons.inj same).1.symm (legible.reserved d noEscapeOther plainOther).2
  · obtain ⟨code, marked⟩ := legible.marked d
    rw [marked] at same
    obtain ⟨letters, -⟩ := List.cons.inj (List.cons.inj same).2
    exact absurd (letters ▸ escape) (legible.letter_ne c)
  · exact absurd (List.cons.inj same).1 (legible.reserved c noEscape plain).2
  · exact List.cons.inj same
  · obtain ⟨code, marked⟩ := legible.marked d
    rw [marked] at same
    exact absurd (List.cons.inj same).1 (legible.reserved c noEscape plain).2
  · obtain ⟨code, marked⟩ := legible.marked c
    rw [marked] at same
    obtain ⟨letters, -⟩ := List.cons.inj (List.cons.inj same).2
    exact absurd (letters ▸ escapeOther) (legible.letter_ne d)
  · obtain ⟨code, marked⟩ := legible.marked c
    rw [marked] at same
    exact absurd (List.cons.inj same).1.symm (legible.reserved d noEscapeOther plainOther).2
  · exact legible.coded_unique noEscape coded noEscapeOther codedOther same

private theorem char_starts (c : Char) :
    ∃ first rest, quoting.char c = first :: rest ∧ first ≠ '"' := by
  rcases quoting.char_cases c with ⟨letter, -, written⟩ | ⟨noEscape, plain, written⟩ |
    ⟨-, -, written⟩
  · exact ⟨'\\', [letter], written, by decide⟩
  · exact ⟨c, [], written, (legible.reserved c noEscape plain).1⟩
  · obtain ⟨code, marked⟩ := legible.marked c
    exact ⟨'\\', 'u' :: code, written.trans marked, by decide⟩

/-- A quoted text ends at its closing quote and is told from every other one. -/
theorem quote_selfDelimiting : SelfDelimiting quoting.quote := by
  intro first second rest other same
  exact legible.char_selfDelimiting.sequence legible.char_starts (List.cons.inj same).2

end Legible

/-- A quoting is legible if every letter of an escape means one character, quote and backslash have
an escape, and the codes of all other characters are marked and told apart. -/
theorem legible_of_meaning (meaning : Char → Option Char)
    (means : ∀ ⦃c letter⦄, quoting.letter? c = some letter → meaning letter = some c)
    (noCode : meaning 'u' = none) (quote : quoting.letter? '"' ≠ none)
    (backslash : quoting.letter? '\\' ≠ none)
    (marked : ∀ c, ∃ rest, quoting.coded c = '\\' :: 'u' :: rest)
    (unique : ∀ ⦃c d rest other⦄, quoting.letter? c = none → quoting.plain c = false →
      quoting.letter? d = none → quoting.plain d = false →
        quoting.coded c ++ rest = quoting.coded d ++ other → c = d ∧ rest = other) :
    quoting.Legible where
  letter_injective _ _ _ escape escapeOther :=
    Option.some.inj ((means escape).symm.trans (means escapeOther))
  letter_ne _ escape := nomatch noCode.symm.trans (means escape)
  reserved c noEscape _ := by
    refine ⟨?_, ?_⟩
    · rintro rfl
      exact quote noEscape
    · rintro rfl
      exact backslash noEscape
  marked := marked
  coded_unique := unique

/-- Characters with their code points between braces are legible if every letter of an escape
means one character, and quote and backslash have one. -/
theorem legible_of_braced {letter? : Char → Option Char} {plain : Char → Bool}
    (meaning : Char → Option Char)
    (means : ∀ ⦃c letter⦄, letter? c = some letter → meaning letter = some c)
    (noCode : meaning 'u' = none) (quote : letter? '"' ≠ none) (backslash : letter? '\\' ≠ none) :
    (Quoting.mk letter? plain bracedCode).Legible :=
  legible_of_meaning meaning means noCode quote backslash (fun _ => ⟨_, rfl⟩)
    fun _ _ _ _ _ _ _ _ same => bracedCode_selfDelimiting same

end Quoting

end ClamSyntax.Text
