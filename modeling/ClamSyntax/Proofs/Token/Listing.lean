import ClamSyntax.Command.Inspect
import ClamSyntax.Proofs.Diagnostic.Layout
import ClamSyntax.Proofs.Text.Decoding
import ClamSyntax.Proofs.Token.Tiling

namespace ClamSyntax

/-- What a listing says of a token. -/
structure Token.Entry where
  kind : TokenKind
  span : Span
  text : List Char
  deriving DecidableEq, Repr

def Token.entry (token : Token) : Token.Entry := ⟨token.kind, token.span, token.text⟩

/-- What a listing says of the tokens of a source, the end included. -/
def Lexer.entries (source : List Char) : List Token.Entry := (tokensToEnd source).map Token.entry

namespace TokenKind

/-- The kind with the spaces that fill its column. -/
def column (kind : TokenKind) : List Char :=
  kind.text.toList ++ List.replicate (16 - kind.text.toList.length) ' '

def all : List TokenKind :=
  (Symbol.keywords ++ Symbol.marks).map symbol ++
    [integer, decimal, quoted, identifier, invalid, endOfInput]

theorem mem_all (kind : TokenKind) : kind ∈ all := by
  cases kind with
  | symbol fixed =>
    have listed := List.mem_append.mpr fixed.mem_keywords_or_marks
    exact List.mem_append_left _ (List.mem_map_of_mem listed)
  | _ => decide

private theorem length_column (kind : TokenKind) : kind.column.length = 16 := by
  have fits : ∀ kind ∈ all, kind.column.length = 16 := by decide
  exact fits kind kind.mem_all

/-- The kind of which this is the column. -/
def ofColumn? (column : List Char) : Option TokenKind := all.find? (·.column == column)

private theorem ofColumn?_column (kind : TokenKind) : ofColumn? kind.column = some kind := by
  have found : ∀ kind ∈ all, ofColumn? kind.column = some kind := by decide
  exact found kind kind.mem_all

private theorem column_injective : Function.Injective column := by
  intro kind other same
  have found := congrArg ofColumn? same
  rw [ofColumn?_column, ofColumn?_column] at found
  exact Option.some.inj found

private theorem column_printable (kind : TokenKind) :
    ∀ c ∈ kind.column, Text.isPrintableAscii c = true := by
  have printable : ∀ kind ∈ all, kind.column.all Text.isPrintableAscii = true := by decide
  exact List.all_eq_true.mp (printable kind kind.mem_all)

end TokenKind

namespace Outline

private theorem escaped?_of_escapeLetter? {c letter : Char}
    (escape : escapeLetter? c = some letter) :
    Literal.escaped? letter = some c := by
  unfold escapeLetter? at escape
  split at escape <;> cases escape <;> rfl

private theorem quoting_legible : quoting.Legible :=
  Text.Quoting.legible_of_braced Literal.escaped? (fun _ _ => escaped?_of_escapeLetter?) rfl
    (by decide) (by decide)

private theorem quote_printable (text : List Char) :
    ∀ shown ∈ quoting.quote text, Text.isPrintable shown = true := by
  refine Text.Quoting.forall_mem_quote (by decide) (by decide) (fun c letter escape => ?_)
    (fun c plain => plain)
    (fun c shown member =>
      Text.isPrintable_of_ascii (Text.isPrintableAscii_of_mem_bracedCode member))
    text
  change escapeLetter? c = some letter at escape
  unfold escapeLetter? at escape
  split at escape <;> cases escape <;> decide

end Outline

namespace Token.Entry

/-- The line of a listing without the newline that ends it. -/
def line (entry : Entry) : List Char :=
  entry.kind.column ++ (" @ ".toList ++ ((toString entry.span.start).toList ++
    ("..".toList ++ ((toString entry.span.stop).toList ++
      (' ' :: Outline.quoting.quote entry.text)))))

/-- A line shows where it ends, and says of which token it is. -/
theorem line_selfDelimiting : Text.SelfDelimiting line := by
  intro first second rest other same
  simp only [line, List.append_assoc, List.cons_append] at same
  have sizes := first.kind.length_column.trans second.kind.length_column.symm
  obtain ⟨kinds, same⟩ := List.append_inj same sizes
  have same := List.append_cancel_left same
  have dots (behind : List Char) : Text.Ends Char.isDigit ("..".toList ++ behind) := by
    intro c head
    cases head
    rfl
  have space (behind : List Char) : Text.Ends Char.isDigit (' ' :: behind) := by
    intro c head
    cases head
    rfl
  obtain ⟨starts, same⟩ := Text.number_unique (dots _) (dots _) same
  have same := List.append_cancel_left same
  obtain ⟨stops, same⟩ := Text.number_unique (space _) (space _) same
  obtain ⟨texts, behind⟩ := Outline.quoting_legible.quote_selfDelimiting (List.cons.inj same).2
  obtain ⟨kind, ⟨start, stop⟩, text⟩ := first
  cases TokenKind.column_injective kinds
  cases starts
  cases stops
  cases texts
  exact ⟨rfl, behind⟩

theorem line_printable (entry : Entry) : ∀ c ∈ entry.line, Text.isPrintable c = true := by
  have fixed {text : List Char} (ascii : text.all Text.isPrintableAscii = true) :
      ∀ c ∈ text, Text.isPrintable c = true :=
    fun c member => Text.isPrintable_of_ascii (List.all_eq_true.mp ascii c member)
  have number (number : Nat) : ∀ c ∈ (toString number).toList, Text.isPrintable c = true :=
    fun _ member => Text.isPrintable_of_ascii (Text.isPrintableAscii_of_mem_toString member)
  simp only [line, List.forall_mem_append, List.forall_mem_cons]
  exact ⟨fun c member => Text.isPrintable_of_ascii (entry.kind.column_printable c member),
    fixed (by decide), number _, fixed (by decide), number _, by decide,
    Outline.quote_printable entry.text⟩

private theorem line_oneLine (entry : Entry) : '\n' ∉ entry.line := by
  intro inside
  have visible := entry.line_printable '\n' inside
  exact absurd visible (by decide)

private theorem line_ne_nil (entry : Entry) : entry.line ++ ['\n'] ≠ [] := by simp

end Token.Entry

private theorem Token.describe_eq (token : Token) :
    token.describe = token.entry.line ++ ['\n'] := by
  simp only [Token.describe, Token.Entry.line, Token.entry, TokenKind.column, Token.span,
    String.toList_append, List.append_assoc]
  rfl

private theorem Lexer.toList_listing (source : List Char) :
    (listing source).toList = Text.unlines ((entries source).map Token.Entry.line) := by
  rw [listing, String.toList_ofList, Text.unlines, entries, List.map_map, List.flatMap_map]
  exact List.flatMap_congr fun token _ => token.describe_eq

private theorem Token.Entry.slice {source : List Char} :
    ∀ entry ∈ Lexer.entries source, Text.slice? source entry.span = some entry.text := by
  refine List.forall_mem_map.mpr fun token member => ?_
  rcases List.mem_append.mp member with inside | last
  · exact ((Lexer.tokensFrom_tiles 0 source).marks token inside).slice
  · rw [List.mem_singleton.mp last]
    have atEnd := Text.slice?_append source [] []
    rwa [List.append_nil, List.append_nil] at atEnd

/-- What is printed of the tokens of a source. -/
def shownTokens (source : String) : List Char := (Effect.output (showTokens source)).toList

private theorem shownTokens_eq (source : String) :
    shownTokens source = Text.unlines ((Lexer.entries source.toList).map Token.Entry.line) := by
  simp only [shownTokens, showTokens, Effect.output, List.map_cons, List.map_nil]
  rw [← Lexer.toList_listing]
  simp

/-- The listing of a source has one line for every token, the end included, each with a newline
behind it and made of characters that can be seen. The text of a token is what the source has in the
range of the token. Two sources have one listing exactly if their tokens agree one by one in kind,
range and text. -/
theorem showTokens_faithful (source other : String) :
    shownTokens source = Text.unlines ((Lexer.entries source.toList).map Token.Entry.line) ∧
    (∀ entry ∈ Lexer.entries source.toList, ∀ c ∈ entry.line, Text.isPrintable c = true) ∧
    (shownTokens source).splitOn '\n' =
      (Lexer.entries source.toList).map Token.Entry.line ++ [[]] ∧
    (∀ entry ∈ Lexer.entries source.toList,
      Text.slice? source.toList entry.span = some entry.text) ∧
    (shownTokens source = shownTokens other ↔
      Lexer.entries source.toList = Lexer.entries other.toList) := by
  have oneLine : ∀ line ∈ (Lexer.entries source.toList).map Token.Entry.line, '\n' ∉ line :=
    List.forall_mem_map.mpr fun entry _ => entry.line_oneLine
  have delimited : Text.SelfDelimiting fun entry : Token.Entry => entry.line ++ ['\n'] := by
    intro first second rest behind same
    simp only [List.append_assoc] at same
    obtain ⟨entries, ended⟩ := Token.Entry.line_selfDelimiting same
    exact ⟨entries, List.append_cancel_left ended⟩
  refine ⟨shownTokens_eq source, fun entry _ => entry.line_printable, ?_, Token.Entry.slice,
    fun same => ?_, fun same => ?_⟩
  · rw [shownTokens_eq, Text.splitOn_unlines_iff.mpr oneLine]
  · rw [shownTokens_eq, shownTokens_eq] at same
    simp only [Text.unlines, List.flatMap_map] at same
    exact delimited.flatMap_injective Token.Entry.line_ne_nil same
  · rw [shownTokens_eq, shownTokens_eq, same]

end ClamSyntax
