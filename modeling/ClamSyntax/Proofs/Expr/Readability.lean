import ClamSyntax.Expr
import ClamSyntax.Literal
import ClamSyntax.Proofs.Text.Decoding
import ClamSyntax.Proofs.Token.LongestMatch

/-! Unique reading of printed expressions. A printed expression begins as a form in parentheses, as
a string or as a bare word, and shows by that where it ends. So the text determines the expression
if its names are identifiers and none of its literals is a float, of which only six places are
printed. -/

namespace ClamSyntax.Expr

open Text (Ends)

/-- What stands in an expression beside its forms. -/
inductive Leaf where
  | value (value : Value)
  | name (text : String)

mutual

/-- The literals and names of an expression, in the order in which they are printed. -/
def leaves : Expr → List Leaf
  | .literal value => [.value value]
  | .name text => [.name text]
  | .list items => itemLeaves items
  | .letIn bindings body => bindingLeaves bindings ++ body.leaves
  | .function param body => .name param :: body.leaves
  | .application callee argument => callee.leaves ++ argument.leaves
  | .print operand => operand.leaves
  | .conditional condition yes no => condition.leaves ++ (yes.leaves ++ no.leaves)
  | .unary _ operand => operand.leaves
  | .binary _ left right => left.leaves ++ right.leaves
  | .subscript target index => target.leaves ++ index.leaves

def itemLeaves : List Expr → List Leaf
  | [] => []
  | item :: rest => item.leaves ++ itemLeaves rest

def bindingLeaves : List (String × Expr) → List Leaf
  | [] => []
  | (bound, value) :: rest => .name bound :: (value.leaves ++ bindingLeaves rest)

end

/-- No literal of the expression is a float. -/
def FloatFree (expr : Expr) : Prop := ∀ number, .value (.float number) ∉ expr.leaves

/-- The leaf is printed so that it can be read back: an identifier, or a literal but a float. -/
def Leaf.Legible : Leaf → Prop
  | .value (.float _) => False
  | .value _ => True
  | .name text => (Lexeme.identifier text).Proper

def Legible (expr : Expr) : Prop := ∀ leaf ∈ expr.leaves, leaf.Legible

/-! Bare words -/

/-- The characters of bare words. -/
def isPart (c : Char) : Bool := Lexer.isWordPart c || c == '-'

/-- The text of an expression that is printed as a word: a literal but a string, or a name. -/
def word? : Expr → Option (List Char)
  | .literal .unit => some Value.unit.sexpr
  | .literal (.bool truth) => some (Value.bool truth).sexpr
  | .literal (.int number) => some (Value.int number).sexpr
  | .name text => some text.toList
  | _ => none

/-- The lexeme of which such a word is the text, unless it is a number. -/
def lexeme? : Expr → Option Lexeme
  | .literal .unit => some (.symbol .kwUnit)
  | .literal (.bool true) => some (.symbol .kwTrue)
  | .literal (.bool false) => some (.symbol .kwFalse)
  | .name text => some (.identifier text)
  | _ => none

theorem word_of_integer {number : Int32} :
    ∀ c ∈ (toString number.toInt).toList, isPart c = true := by
  intro c member
  have part := Text.integer_parts number.toInt c member
  rcases (Bool.or_eq_true _ _).mp part with digit | minus
  · simp [isPart, Lexer.isWordPart, Char.isAlphanum, digit]
  · simp [isPart, minus]

section Words

variable {expr other : Expr} {word : List Char}

private theorem proper_of_lexeme? {lexeme : Lexeme} (legible : expr.Legible)
    (found : expr.lexeme? = some lexeme) : lexeme.Proper := by
  unfold lexeme? at found
  split at found <;> cases found
  · trivial
  · trivial
  · trivial
  · exact legible _ (List.mem_singleton_self _)

theorem word?_cases (found : expr.word? = some word) :
    (∃ number, expr = .literal (.int number) ∧ word = (toString number.toInt).toList) ∨
      ∃ lexeme, expr.lexeme? = some lexeme ∧ word = lexeme.text := by
  unfold word? at found
  split at found <;> cases found
  · exact .inr ⟨_, rfl, rfl⟩
  · rename_i truth
    cases truth with
    | true => exact .inr ⟨_, rfl, rfl⟩
    | false => exact .inr ⟨_, rfl, rfl⟩
  · exact .inl ⟨_, rfl, rfl⟩
  · exact .inr ⟨_, rfl, rfl⟩

private theorem lexeme?_unique {lexeme : Lexeme} (found : expr.lexeme? = some lexeme)
    (foundOther : other.lexeme? = some lexeme) : expr = other := by
  unfold lexeme? at found foundOther
  split at found <;> cases found <;> split at foundOther <;> cases foundOther <;> rfl

theorem lexeme_starts {lexeme : Lexeme} (legible : expr.Legible)
    (found : expr.lexeme? = some lexeme) :
    (∃ c ∈ lexeme.text.head?, Lexer.isWordStart c = true) ∧
      ∀ c ∈ lexeme.text, Lexer.isWordPart c = true := by
  unfold lexeme? at found
  split at found <;> cases found
  · exact ⟨⟨'u', by decide, by decide⟩, List.all_eq_true.mp (by decide)⟩
  · exact ⟨⟨'t', by decide, by decide⟩, List.all_eq_true.mp (by decide)⟩
  · exact ⟨⟨'f', by decide, by decide⟩, List.all_eq_true.mp (by decide)⟩
  · rename_i text
    have proper : (Lexeme.identifier text).Proper := legible _ (List.mem_singleton_self _)
    exact ⟨proper.1, proper.2.1⟩

theorem word_parts (legible : expr.Legible) (found : expr.word? = some word) :
    ∀ c ∈ word, isPart c = true := by
  rcases word?_cases found with ⟨number, rfl, rfl⟩ | ⟨lexeme, named, rfl⟩
  · exact word_of_integer
  · intro c member
    rw [isPart, (lexeme_starts legible named).2 c member]
    rfl

private theorem word_ne_nil (legible : expr.Legible) (found : expr.word? = some word) :
    word ≠ [] := by
  rcases word?_cases found with ⟨number, rfl, rfl⟩ | ⟨lexeme, named, rfl⟩
  · exact Text.toList_integer_ne_nil _
  · obtain ⟨⟨c, head, -⟩, -⟩ := lexeme_starts legible named
    rintro nothing
    rw [nothing] at head
    cases head

private theorem integer_ne_lexeme {number : Int} {lexeme : Lexeme} (legible : expr.Legible)
    (found : expr.lexeme? = some lexeme) : (toString number).toList ≠ lexeme.text := by
  intro same
  obtain ⟨⟨c, head, start⟩, -⟩ := lexeme_starts legible found
  rw [← same] at head
  have part := Text.integer_parts number c (List.mem_of_mem_head? head)
  rcases (Bool.or_eq_true _ _).mp part with digit | minus
  · exact Lexer.not_isDigit_of_isWordStart start digit
  · rw [eq_of_beq minus] at start
    cases start

private theorem word?_unique (legible : expr.Legible) (legibleOther : other.Legible)
    (found : expr.word? = some word) (foundOther : other.word? = some word) : expr = other := by
  rcases word?_cases found with ⟨number, rfl, rfl⟩ | ⟨lexeme, named, rfl⟩
  · rcases word?_cases foundOther with ⟨second, rfl, same⟩ | ⟨lexeme, named, same⟩
    · rw [Int32.toInt_inj.mp (Text.toList_integer_injective same)]
    · exact absurd same (integer_ne_lexeme legibleOther named)
  · rcases word?_cases foundOther with ⟨second, rfl, same⟩ | ⟨second, namedOther, same⟩
    · exact absurd same.symm (integer_ne_lexeme legible named)
    · have one := Lexer.eq_of_text (proper_of_lexeme? legible named)
        (proper_of_lexeme? legibleOther namedOther) same
      exact lexeme?_unique named (one ▸ namedOther)

end Words

/-! Forms in parentheses -/

/-- What a form in parentheses is, as far as its first word says it. -/
inductive Head where
  | list | letIn | function | application | print | conditional | subscript
  | unary (op : UnaryOp)
  | binary (op : BinaryOp)
  deriving DecidableEq

namespace Head

def spelling : Head → List Char
  | list => "list".toList
  | letIn => "let".toList
  | function => "fun".toList
  | application => "app".toList
  | print => "print".toList
  | conditional => "if".toList
  | subscript => "get".toList
  | unary op => op.spelling.toList
  | binary op => op.spelling.toList

def all : List Head :=
  [list, letIn, function, application, print, conditional, subscript] ++
    (BinaryOp.all.map binary ++ UnaryOp.all.map unary)

theorem mem_all (head : Head) : head ∈ all := by
  cases head with
  | unary op => cases op <;> decide
  | binary op => cases op <;> decide
  | _ => decide

/-- The subtraction stands for the negation, which has the same word. -/
def merged : Head → Head
  | unary .negate => binary .sub
  | head => head

def ofWord? (word : List Char) : Option Head := all.find? (·.spelling == word)

private theorem ofWord?_spelling (head : Head) : ofWord? head.spelling = some head.merged := by
  have found : ∀ head ∈ all, ofWord? head.spelling = some head.merged := by decide
  exact found head head.mem_all

/-- The word determines the head up to the two meanings of the minus. -/
theorem eq_or_minus {head other : Head} (same : head.spelling = other.spelling) :
    head = other ∨ (head = unary .negate ∧ other = binary .sub) ∨
      (head = binary .sub ∧ other = unary .negate) := by
  have found := congrArg ofWord? same
  rw [ofWord?_spelling, ofWord?_spelling] at found
  have one := Option.some.inj found
  unfold merged at one
  split at one <;> split at one
  · exact .inl rfl
  · exact .inr (.inl ⟨rfl, one.symm⟩)
  · exact .inr (.inr ⟨one, rfl⟩)
  · exact .inl one

/-- The characters of the words that begin forms. -/
def isPart (c : Char) : Bool := c != ' ' && c != ')'

private theorem spelling_parts (head : Head) : ∀ c ∈ head.spelling, isPart c = true := by
  have parts : ∀ head ∈ all, head.spelling.all isPart = true := by decide
  exact List.all_eq_true.mp (parts head head.mem_all)

end Head

/-- The first word of an expression that is printed in parentheses. -/
def head? : Expr → Option Head
  | .literal _ | .name _ => none
  | .list _ => some .list
  | .letIn .. => some .letIn
  | .function .. => some .function
  | .application .. => some .application
  | .print _ => some .print
  | .conditional .. => some .conditional
  | .unary op _ => some (.unary op)
  | .binary op .. => some (.binary op)
  | .subscript .. => some .subscript

/-- The expressions with a first word. -/
def HasHead (expr : Expr) : Head → Prop
  | .list => ∃ items, expr = .list items
  | .letIn => ∃ bindings body, expr = .letIn bindings body
  | .function => ∃ param body, expr = .function param body
  | .application => ∃ callee argument, expr = .application callee argument
  | .print => ∃ operand, expr = .print operand
  | .conditional => ∃ condition yes no, expr = .conditional condition yes no
  | .subscript => ∃ target index, expr = .subscript target index
  | .unary op => ∃ operand, expr = .unary op operand
  | .binary op => ∃ left right, expr = .binary op left right

private theorem hasHead_of_head? {expr : Expr} {head : Head} (found : expr.head? = some head) :
    expr.HasHead head := by
  cases expr <;> cases found <;> simp [HasHead]

theorem ends_space (p : Char → Bool) (outside : p ' ' = false) (rest : List Char) :
    Ends p (' ' :: rest) := by
  rintro c ⟨⟩
  exact outside

/-- The ways in which an expression is printed: as a form in parentheses with its word in front, as
a string, or as a word. -/
theorem write_cases {expr : Expr} (legible : expr.Legible) (rest : List Char) :
    (∃ head tail, expr.head? = some head ∧ Ends Head.isPart tail ∧
      expr.write rest = '(' :: (head.spelling ++ tail)) ∨
    (∃ text, expr = .literal (.str text)) ∨
    ∃ word, expr.word? = some word ∧ expr.write rest = word ++ rest := by
  cases expr with
  | literal value =>
    cases value with
    | float number => exact absurd (legible _ (List.mem_singleton_self _)) id
    | str text => exact .inr (.inl ⟨text, rfl⟩)
    | bool truth => cases truth <;> exact .inr (.inr ⟨_, rfl, rfl⟩)
    | _ => exact .inr (.inr ⟨_, rfl, rfl⟩)
  | name text => exact .inr (.inr ⟨_, rfl, rfl⟩)
  | list items =>
    refine .inl ⟨.list, writeItems (')' :: rest) items, rfl, ?_, rfl⟩
    cases items <;> rintro c ⟨⟩ <;> rfl
  | _ => exact .inl ⟨_, _, rfl, ends_space _ rfl _, rfl⟩

/-- The character that the letter of an escape means. -/
def escaped? : Char → Option Char
  | '\'' => some '\''
  | letter => Literal.escaped? letter

private theorem escaped?_of_escapeLetter? {c letter : Char}
    (escape : escapeLetter? c = some letter) :
    escaped? letter = some c := by
  unfold escapeLetter? at escape
  split at escape <;> cases escape <;> rfl

private theorem quoting_legible : quoting.Legible :=
  Text.Quoting.legible_of_braced escaped? (fun _ _ => escaped?_of_escapeLetter?) rfl (by decide)
    (by decide)

section Unique

variable {first second : Expr} {rest other : List Char}

/-- No word begins as a form in parentheses or as a string does. -/
theorem word_starts {word : List Char} (legible : first.Legible) (found : first.word? = some word)
    {c : Char} (outside : isPart c = false) (text : List Char) : word ++ rest ≠ c :: text := by
  intro same
  obtain ⟨begin, tail, rfl⟩ := List.exists_cons_of_ne_nil (word_ne_nil legible found)
  have part := word_parts legible found begin List.mem_cons_self
  rw [(List.cons.inj same).1, outside] at part
  cases part

/-- The first word of a form is found in the other expression as well, but for the minus. -/
theorem head_of_write {head : Head} (legible : first.Legible) (legibleOther : second.Legible)
    (found : first.head? = some head) (same : first.write rest = second.write other) :
    second.HasHead head ∨ (head = .unary .negate ∧ second.HasHead (.binary .sub)) ∨
      (head = .binary .sub ∧ second.HasHead (.unary .negate)) := by
  rcases write_cases legible rest with ⟨begin, tail, headed, ends, written⟩ | ⟨text, rfl⟩ |
    ⟨word, isWord, -⟩
  · cases found.symm.trans headed
    rw [written] at same
    rcases write_cases legibleOther other with
      ⟨start, behind, headedOther, endsOther, writtenOther⟩ | ⟨text, rfl⟩ |
      ⟨word, isWord, writtenOther⟩
    · rw [writtenOther] at same
      obtain ⟨words, -⟩ := Text.run_unique head.spelling_parts ends start.spelling_parts endsOther
        (List.cons.inj same).2
      have has := hasHead_of_head? headedOther
      rcases Head.eq_or_minus words with rfl | ⟨rfl, rfl⟩ | ⟨rfl, rfl⟩
      · exact .inl has
      · exact .inr (.inl ⟨rfl, has⟩)
      · exact .inr (.inr ⟨rfl, has⟩)
    · cases (List.cons.inj same).1
    · rw [writtenOther] at same
      exact absurd same.symm (word_starts legibleOther isWord rfl _)
  · cases found
  · cases first <;> cases found <;> cases isWord

theorem hasHead_of_write {head : Head} (legible : first.Legible) (legibleOther : second.Legible)
    (found : first.head? = some head) (same : first.write rest = second.write other)
    (noNegation : head ≠ .unary .negate) (noSubtraction : head ≠ .binary .sub) :
    second.HasHead head := by
  rcases head_of_write legible legibleOther found same with has | ⟨minus, -⟩ | ⟨minus, -⟩
  · exact has
  · exact absurd minus noNegation
  · exact absurd minus noSubtraction

/-- Literals and names are told from everything else. -/
theorem leaf_unique (legible : first.Legible) (legibleOther : second.Legible)
    (leaf : first.head? = none) (ends : Ends isPart rest) (endsOther : Ends isPart other)
    (same : first.write rest = second.write other) : first = second ∧ rest = other := by
  rcases write_cases legible rest with ⟨begin, tail, headed, -, -⟩ | ⟨text, rfl⟩ |
    ⟨word, isWord, written⟩
  · cases leaf.symm.trans headed
  · rcases write_cases legibleOther other with ⟨start, behind, -, -, writtenOther⟩ |
      ⟨textOther, rfl⟩ | ⟨wordOther, isWordOther, writtenOther⟩
    · rw [writtenOther] at same
      cases (List.cons.inj same).1
    · obtain ⟨texts, behind⟩ := quoting_legible.quote_selfDelimiting same
      exact ⟨by rw [String.toList_inj.mp texts], behind⟩
    · rw [writtenOther] at same
      exact absurd same.symm (word_starts legibleOther isWordOther rfl _)
  · rw [written] at same
    rcases write_cases legibleOther other with ⟨start, behind, -, -, writtenOther⟩ |
      ⟨textOther, rfl⟩ | ⟨wordOther, isWordOther, writtenOther⟩
    · rw [writtenOther] at same
      exact absurd same (word_starts legible isWord rfl _)
    · exact absurd same (word_starts legible isWord rfl _)
    · rw [writtenOther] at same
      obtain ⟨rfl, behind⟩ := Text.run_unique (word_parts legible isWord) ends
        (word_parts legibleOther isWordOther) endsOther same
      exact ⟨word?_unique legible legibleOther isWord isWordOther, behind⟩

theorem name_unique {name nameOther : String} {rest other : List Char}
    (legible : (Leaf.name name).Legible) (legibleOther : (Leaf.name nameOther).Legible)
    (ends : Ends Lexer.isWordPart rest) (endsOther : Ends Lexer.isWordPart other)
    (same : name.toList ++ rest = nameOther.toList ++ other) : name = nameOther ∧ rest = other := by
  obtain ⟨names, behind⟩ := Text.run_unique legible.2.1 ends legibleOther.2.1 endsOther same
  exact ⟨String.toList_inj.mp names, behind⟩

end Unique

theorem ends_close (rest : List Char) : Ends isPart (')' :: rest) := by
  rintro c ⟨⟩
  rfl

theorem ends_items (rest : List Char) (items : List Expr) :
    Ends isPart (writeItems (')' :: rest) items) := by
  cases items <;> rintro c ⟨⟩ <;> rfl

/-- What is printed for the expression, in front of a text that does not go on as a word does,
determines the expression and the text. -/
def Determined (first : Expr) : Prop :=
  ∀ ⦃second : Expr⦄ ⦃rest other : List Char⦄, first.Legible → second.Legible →
    Ends isPart rest → Ends isPart other →
      first.write rest = second.write other → first = second ∧ rest = other

namespace Determined

variable {first second left right : Expr} {rest other : List Char}

theorem last (determined : first.Determined)
    (same : first.write (')' :: rest) = second.write (')' :: other))
    (legible : first.Legible) (legibleOther : second.Legible) :
    first = second ∧ rest = other := by
  obtain ⟨one, behind⟩ := determined legible legibleOther (ends_close rest) (ends_close other) same
  exact ⟨one, (List.cons.inj behind).2⟩

private theorem inner (determined : first.Determined)
    (same : first.write (' ' :: rest) = second.write (' ' :: other))
    (legible : first.Legible) (legibleOther : second.Legible) :
    first = second ∧ rest = other := by
  obtain ⟨one, behind⟩ := determined legible legibleOther (ends_space _ rfl rest)
    (ends_space _ rfl other) same
  exact ⟨one, (List.cons.inj behind).2⟩

theorem pair (determined : first.Determined) (determinedLast : second.Determined)
    (same : first.write (' ' :: second.write (')' :: rest)) =
      left.write (' ' :: right.write (')' :: other)))
    (legible : ∀ leaf ∈ first.leaves ++ second.leaves, leaf.Legible)
    (legibleOther : ∀ leaf ∈ left.leaves ++ right.leaves, leaf.Legible) :
    (first = left ∧ second = right) ∧ rest = other := by
  obtain ⟨here, behind⟩ := List.forall_mem_append.mp legible
  obtain ⟨hereOther, behindOther⟩ := List.forall_mem_append.mp legibleOther
  obtain ⟨one, same⟩ := determined.inner same here hereOther
  obtain ⟨two, ended⟩ := determinedLast.last same behind behindOther
  exact ⟨⟨one, two⟩, ended⟩

private theorem not_pair (determined : first.Determined)
    (legible : first.Legible) (legibleOther : second.Legible) :
    first.write (')' :: rest) ≠ second.write (' ' :: other) := by
  intro same
  obtain ⟨-, behind⟩ := determined legible legibleOther (ends_close rest) (ends_space _ rfl _) same
  cases (List.cons.inj behind).1

private theorem not_last (determined : first.Determined)
    (legible : first.Legible) (legibleOther : second.Legible) :
    first.write (' ' :: rest) ≠ second.write (')' :: other) := by
  intro same
  obtain ⟨-, behind⟩ := determined legible legibleOther (ends_space _ rfl _) (ends_close other) same
  cases (List.cons.inj behind).1

theorem unary {op : UnaryOp} (determined : first.Determined) :
    (Expr.unary op first).Determined := by
  intro second rest other legible legibleOther _ _ same
  rcases head_of_write legible legibleOther rfl same with ⟨operand, rfl⟩ |
    ⟨minus, left, right, rfl⟩ | ⟨minus, -⟩
  · have operands := (List.cons.inj (List.append_cancel_left (List.cons.inj same).2)).2
    obtain ⟨rfl, ended⟩ := determined.last operands legible legibleOther
    exact ⟨rfl, ended⟩
  · cases minus
    have operands : first.write (')' :: rest) = left.write (' ' :: right.write (')' :: other)) :=
      List.append_cancel_left (show "(- ".toList ++ _ = "(- ".toList ++ _ from same)
    exact absurd operands
      (determined.not_pair legible (List.forall_mem_append.mp legibleOther).1)
  · cases minus

theorem binary {op : BinaryOp} (determined : left.Determined) (determinedLast : right.Determined) :
    (Expr.binary op left right).Determined := by
  intro second rest other legible legibleOther _ _ same
  rcases head_of_write legible legibleOther rfl same with ⟨first, last, rfl⟩ | ⟨minus, -⟩ |
    ⟨minus, operand, rfl⟩
  · have operands := (List.cons.inj (List.append_cancel_left (List.cons.inj same).2)).2
    obtain ⟨⟨rfl, rfl⟩, ended⟩ := determined.pair determinedLast operands legible legibleOther
    exact ⟨rfl, ended⟩
  · cases minus
  · cases minus
    have operands : left.write (' ' :: right.write (')' :: rest)) = operand.write (')' :: other) :=
      List.append_cancel_left (show "(- ".toList ++ _ = "(- ".toList ++ _ from same)
    exact absurd operands
      (determined.not_last (List.forall_mem_append.mp legible).1 legibleOther)

end Determined

/-- What stands behind a binding: the others behind a space, if there are any. -/
def bindingsBehind (after : List Char) : List (String × Expr) → List Char
  | [] => after
  | binding :: rest => ' ' :: writeBindings after (binding :: rest)

theorem writeBindings_cons (after : List Char) (bound : String) (value : Expr)
    (rest : List (String × Expr)) :
    writeBindings after ((bound, value) :: rest) =
      '(' :: (bound.toList ++ ' ' :: value.write (')' :: bindingsBehind after rest)) := by
  cases rest <;> rfl

/-- Both bindings are the last ones, or others stand behind both. -/
theorem writeBindings_of_behind {first second : List (String × Expr)} {rest other : List Char}
    (same : bindingsBehind (']' :: rest) first = bindingsBehind (']' :: other) second) :
    writeBindings (']' :: rest) first = writeBindings (']' :: other) second := by
  cases first with
  | nil =>
    cases second with
    | nil => exact same
    | cons binding second => cases (List.cons.inj same).1
  | cons binding first =>
    cases second with
    | nil => cases (List.cons.inj same).1
    | cons head second => exact (List.cons.inj same).2

theorem ends_then (rest : List Char) : Ends isPart (" :then ".toList ++ rest) :=
  ends_space _ rfl (":then ".toList ++ rest)

theorem ends_else (rest : List Char) : Ends isPart (" :else ".toList ++ rest) :=
  ends_space _ rfl (":else ".toList ++ rest)

mutual

theorem determined : ∀ first : Expr, first.Determined
  | .literal _, _, _, _, legible, legibleOther, ends, endsOther, same
  | .name _, _, _, _, legible, legibleOther, ends, endsOther, same =>
    leaf_unique legible legibleOther rfl ends endsOther same
  | .list items, _, _, _, legible, legibleOther, _, _, same => by
    obtain ⟨items', rfl⟩ := hasHead_of_write legible legibleOther rfl same nofun nofun
    obtain ⟨rfl, ended⟩ := items_determined items items' legible legibleOther
      (List.append_cancel_left same)
    exact ⟨rfl, ended⟩
  | .letIn bindings body, _, _, _, legible, legibleOther, _, _, same => by
    obtain ⟨bindings', body', rfl⟩ := hasHead_of_write legible legibleOther rfl same nofun nofun
    obtain ⟨here, behind⟩ := List.forall_mem_append.mp legible
    obtain ⟨hereOther, behindOther⟩ := List.forall_mem_append.mp legibleOther
    obtain ⟨rfl, others⟩ := bindings_determined bindings bindings' here hereOther
      (List.append_cancel_left same)
    obtain ⟨rfl, ended⟩ := body.determined.last (List.cons.inj others).2 behind behindOther
    exact ⟨rfl, ended⟩
  | .function param body, _, rest, other, legible, legibleOther, _, _, same => by
    obtain ⟨param', body', rfl⟩ := hasHead_of_write legible legibleOther rfl same nofun nofun
    obtain ⟨here, behind⟩ := List.forall_mem_cons.mp legible
    obtain ⟨hereOther, behindOther⟩ := List.forall_mem_cons.mp legibleOther
    have bracket (text : List Char) : Ends Lexer.isWordPart ("] ".toList ++ text) := by
      rintro c ⟨⟩
      rfl
    obtain ⟨rfl, others⟩ := name_unique here hereOther (bracket _) (bracket _)
      (List.append_cancel_left same)
    obtain ⟨rfl, ended⟩ := body.determined.last (List.append_cancel_left others) behind behindOther
    exact ⟨rfl, ended⟩
  | .application callee argument, _, _, _, legible, legibleOther, _, _, same => by
    obtain ⟨callee', argument', rfl⟩ :=
      hasHead_of_write legible legibleOther rfl same nofun nofun
    obtain ⟨⟨rfl, rfl⟩, ended⟩ := callee.determined.pair argument.determined
      (List.append_cancel_left same) legible legibleOther
    exact ⟨rfl, ended⟩
  | .print operand, _, _, _, legible, legibleOther, _, _, same => by
    obtain ⟨operand', rfl⟩ := hasHead_of_write legible legibleOther rfl same nofun nofun
    obtain ⟨rfl, ended⟩ := operand.determined.last (List.append_cancel_left same) legible
      legibleOther
    exact ⟨rfl, ended⟩
  | .conditional condition yes no, _, _, _, legible, legibleOther, _, _, same => by
    obtain ⟨condition', yes', no', rfl⟩ :=
      hasHead_of_write legible legibleOther rfl same nofun nofun
    obtain ⟨here, behind⟩ := List.forall_mem_append.mp legible
    obtain ⟨hereOther, behindOther⟩ := List.forall_mem_append.mp legibleOther
    obtain ⟨inYes, inNo⟩ := List.forall_mem_append.mp behind
    obtain ⟨inYesOther, inNoOther⟩ := List.forall_mem_append.mp behindOther
    obtain ⟨rfl, branches⟩ := condition.determined here hereOther (ends_then _) (ends_then _)
      (List.append_cancel_left same)
    obtain ⟨rfl, branch⟩ := yes.determined inYes inYesOther (ends_else _) (ends_else _)
      (List.append_cancel_left branches)
    obtain ⟨rfl, ended⟩ := no.determined.last (List.append_cancel_left branch) inNo inNoOther
    exact ⟨rfl, ended⟩
  | .unary _ operand, _, _, _, legible, legibleOther, ends, endsOther, same =>
    operand.determined.unary legible legibleOther ends endsOther same
  | .binary _ left right, _, _, _, legible, legibleOther, ends, endsOther, same =>
    left.determined.binary right.determined legible legibleOther ends endsOther same
  | .subscript target index, _, _, _, legible, legibleOther, _, _, same => by
    obtain ⟨target', index', rfl⟩ := hasHead_of_write legible legibleOther rfl same nofun nofun
    obtain ⟨⟨rfl, rfl⟩, ended⟩ := target.determined.pair index.determined
      (List.append_cancel_left same) legible legibleOther
    exact ⟨rfl, ended⟩

theorem items_determined : ∀ (first second : List Expr) {rest other : List Char},
    (∀ leaf ∈ itemLeaves first, leaf.Legible) → (∀ leaf ∈ itemLeaves second, leaf.Legible) →
      writeItems (')' :: rest) first = writeItems (')' :: other) second →
        first = second ∧ rest = other
  | [], [], _, _, _, _, same => ⟨rfl, (List.cons.inj same).2⟩
  | [], _ :: _, _, _, _, _, same => nomatch (List.cons.inj same).1
  | _ :: _, [], _, _, _, _, same => nomatch (List.cons.inj same).1
  | item :: first, head :: second, rest, other, legible, legibleOther, same => by
    obtain ⟨here, behind⟩ := List.forall_mem_append.mp legible
    obtain ⟨hereOther, behindOther⟩ := List.forall_mem_append.mp legibleOther
    obtain ⟨rfl, others⟩ := item.determined here hereOther (ends_items rest first)
      (ends_items other second) (List.cons.inj same).2
    obtain ⟨rfl, ended⟩ := items_determined first second behind behindOther others
    exact ⟨rfl, ended⟩

theorem bindings_determined : ∀ (first second : List (String × Expr)) {rest other : List Char},
    (∀ leaf ∈ bindingLeaves first, leaf.Legible) →
      (∀ leaf ∈ bindingLeaves second, leaf.Legible) →
        writeBindings (']' :: rest) first = writeBindings (']' :: other) second →
          first = second ∧ rest = other
  | [], [], _, _, _, _, same => ⟨rfl, (List.cons.inj same).2⟩
  | [], (_, _) :: _, _, _, _, _, same => by
    rw [writeBindings_cons] at same
    cases (List.cons.inj same).1
  | (_, _) :: _, [], _, _, _, _, same => by
    rw [writeBindings_cons] at same
    cases (List.cons.inj same).1
  | (bound, value) :: first, (boundOther, valueOther) :: second, rest, other, legible,
      legibleOther, same => by
    obtain ⟨named, parts⟩ := List.forall_mem_cons.mp legible
    obtain ⟨here, behind⟩ := List.forall_mem_append.mp parts
    obtain ⟨namedOther, partsOther⟩ := List.forall_mem_cons.mp legibleOther
    obtain ⟨hereOther, behindOther⟩ := List.forall_mem_append.mp partsOther
    rw [writeBindings_cons, writeBindings_cons] at same
    obtain ⟨rfl, values⟩ := name_unique named namedOther (ends_space _ rfl _) (ends_space _ rfl _)
      (List.cons.inj same).2
    obtain ⟨rfl, others⟩ := value.determined.last (List.cons.inj values).2 here hereOther
    obtain ⟨rfl, ended⟩ := bindings_determined first second behind behindOther
      (writeBindings_of_behind others)
    exact ⟨rfl, ended⟩

end

/-! Characters of the printed text -/

theorem printable_of_isPart {c : Char} (part : isPart c = true) :
    Text.isPrintableAscii c = true := by
  simp only [isPart, Lexer.isWordPart, Char.isAlphanum, Char.isAlpha, Char.isUpper, Char.isLower,
    Char.isDigit, Bool.or_eq_true, Bool.and_eq_true, decide_eq_true_eq, beq_iff_eq,
    UInt32.le_iff_toNat_le, ge_iff_le] at part
  simp only [Text.isPrintableAscii, Bool.and_eq_true, decide_eq_true_eq, Char.toNat]
  rcases part with (((upper | lower) | digit) | rfl) | rfl
  · exact ⟨Nat.le_trans (by decide) upper.1, Nat.le_trans upper.2 (by decide)⟩
  · exact ⟨Nat.le_trans (by decide) lower.1, Nat.le_trans lower.2 (by decide)⟩
  · exact ⟨Nat.le_trans (by decide) digit.1, Nat.le_trans digit.2 (by decide)⟩
  · decide
  · decide

private theorem quote_printable (text : List Char) :
    ∀ shown ∈ quoting.quote text, Text.isPrintableAscii shown = true := by
  refine Text.Quoting.forall_mem_quote (by decide) (by decide) (fun c letter escape => ?_)
    (fun c plain => plain) (fun c shown member => Text.isPrintableAscii_of_mem_bracedCode member)
    text
  change escapeLetter? c = some letter at escape
  unfold escapeLetter? at escape
  split at escape <;> cases escape <;> decide

/-- The text is made of characters of ASCII that can be seen. -/
def Shown (text : List Char) : Prop := text.all Text.isPrintableAscii = true

instance (text : List Char) : Decidable (Shown text) :=
  inferInstanceAs (Decidable (text.all Text.isPrintableAscii = true))

namespace Shown

variable {text : List Char}

theorem behind (shown : Shown text) (front : List Char) (here : Shown front) :
    Shown (front ++ text) := by
  rw [Shown, List.all_append, here, shown]
  rfl

theorem opened (shown : Shown text) : Shown ('(' :: text) := shown.behind ['('] (by decide)

theorem closed (shown : Shown text) : Shown (')' :: text) := shown.behind [')'] (by decide)

theorem spaced (shown : Shown text) : Shown (' ' :: text) := shown.behind [' '] (by decide)

theorem of_name {name : String} (legible : (Leaf.name name).Legible) : Shown name.toList := by
  refine List.all_eq_true.mpr fun c member => printable_of_isPart ?_
  rw [isPart, legible.2.1 c member]
  rfl

theorem of_value {value : Value} (legible : (Leaf.value value).Legible) : Shown value.sexpr := by
  cases value with
  | float number => exact absurd legible id
  | str text => exact List.all_eq_true.mpr (quote_printable text.toList)
  | int number =>
    exact List.all_eq_true.mpr fun c member => printable_of_isPart (word_of_integer c member)
  | unit => decide
  | bool truth => cases truth <;> decide

end Shown

mutual

/-- A legible expression is printed in characters of ASCII that can be seen. -/
theorem shown_write : ∀ (expr : Expr) {rest : List Char}, expr.Legible → Shown rest →
    Shown (expr.write rest)
  | .literal _, _, legible, shown =>
    shown.behind _ (.of_value (legible _ (List.mem_singleton_self _)))
  | .name _, _, legible, shown =>
    shown.behind _ (.of_name (legible _ (List.mem_singleton_self _)))
  | .list items, _, legible, shown =>
    (shown_writeItems items legible shown.closed).behind _ (by decide)
  | .letIn bindings body, _, legible, shown => by
    obtain ⟨here, behind⟩ := List.forall_mem_append.mp legible
    have last := (shown_write body behind shown.closed).behind "] ".toList (by decide)
    exact (shown_writeBindings bindings here last).behind _ (by decide)
  | .function param body, _, legible, shown => by
    obtain ⟨named, behind⟩ := List.forall_mem_cons.mp legible
    have last := (shown_write body behind shown.closed).behind "] ".toList (by decide)
    exact (last.behind _ (.of_name named)).behind _ (by decide)
  | .print operand, _, legible, shown =>
    (shown_write operand legible shown.closed).behind _ (by decide)
  | .conditional condition yes no, _, legible, shown => by
    obtain ⟨here, behind⟩ := List.forall_mem_append.mp legible
    obtain ⟨inYes, inNo⟩ := List.forall_mem_append.mp behind
    have second := (shown_write no inNo shown.closed).behind " :else ".toList (by decide)
    have first := (shown_write yes inYes second).behind " :then ".toList (by decide)
    exact (shown_write condition here first).behind _ (by decide)
  | .unary op operand, _, legible, shown =>
    have operands := (shown_write operand legible shown.closed).spaced
    (operands.behind _ (by cases op <;> decide)).opened
  | .binary op left right, _, legible, shown => by
    obtain ⟨here, behind⟩ := List.forall_mem_append.mp legible
    have operands := (shown_write left here (shown_write right behind shown.closed).spaced).spaced
    exact (operands.behind _ (by cases op <;> decide)).opened
  | .application callee argument, _, legible, shown => by
    obtain ⟨here, behind⟩ := List.forall_mem_append.mp legible
    have last := shown_write argument behind shown.closed
    exact (shown_write callee here last.spaced).behind _ (by decide)
  | .subscript target index, _, legible, shown => by
    obtain ⟨here, behind⟩ := List.forall_mem_append.mp legible
    have last := shown_write index behind shown.closed
    exact (shown_write target here last.spaced).behind _ (by decide)

theorem shown_writeItems : ∀ (items : List Expr) {rest : List Char},
    (∀ leaf ∈ itemLeaves items, leaf.Legible) → Shown rest → Shown (writeItems rest items)
  | [], _, _, shown => shown
  | item :: items, _, legible, shown => by
    obtain ⟨here, behind⟩ := List.forall_mem_append.mp legible
    exact (shown_write item here (shown_writeItems items behind shown)).spaced

theorem shown_writeBindings : ∀ (bindings : List (String × Expr)) {rest : List Char},
    (∀ leaf ∈ bindingLeaves bindings, leaf.Legible) → Shown rest →
      Shown (writeBindings rest bindings)
  | [], _, _, shown => shown
  | (bound, value) :: bindings, rest, legible, shown => by
    obtain ⟨named, parts⟩ := List.forall_mem_cons.mp legible
    obtain ⟨here, behind⟩ := List.forall_mem_append.mp parts
    have others : Shown (bindingsBehind rest bindings) := by
      cases bindings with
      | nil => exact shown
      | cons binding more => exact (shown_writeBindings (binding :: more) behind shown).spaced
    rw [writeBindings_cons]
    exact ((shown_write value here others.closed).spaced.behind _ (.of_name named)).opened

end

end ClamSyntax.Expr
