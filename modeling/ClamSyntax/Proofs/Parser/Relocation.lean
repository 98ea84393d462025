import ClamSyntax.Proofs.Parser.Reading
import ClamSyntax.Proofs.Phrase.Relocation

namespace ClamSyntax.Parser

def Stop.relocate (move : Nat → Nat) (stop : Stop) : Stop :=
  ⟨stop.reason, stop.rest.map (Token.relocate move)⟩

/-- The reading with its tokens moved, and its value carried along. -/
def Reading.relocate (move : Nat → Nat) (carry : α → α) : Reading α → Reading α
  | .ok (value, rest) => .ok (carry value, rest.map (Token.relocate move))
  | .error stop => .error (stop.relocate move)

theorem Reading.relocate_andThen {move : Nat → Nat} {carry : α → α} {carryNext : β → β}
    {reading moved : Reading α} {next nextMoved : α → List Token → Reading β}
    (first : moved = reading.relocate move carry)
    (second : ∀ value rest, reading = .ok (value, rest) →
      nextMoved (carry value) (rest.map (Token.relocate move)) =
        (next value rest).relocate move carryNext) :
    moved.andThen nextMoved = (reading.andThen next).relocate move carryNext := by
  subst first
  cases reading with
  | error stop => rfl
  | ok found => exact second found.1 found.2 rfl

section Readers

variable {move : Nat → Nat}

theorem readSymbol_relocate (fixed : Symbol) (tokens : List Token) :
    readSymbol fixed (tokens.map (Token.relocate move)) =
      (readSymbol fixed tokens).relocate move move := by
  cases tokens with
  | nil => rfl
  | cons token rest =>
    rw [List.map_cons, readSymbol_cons, readSymbol_cons]
    by_cases found : token.lexeme = .symbol fixed
    · rw [if_pos found, if_pos (show (token.relocate move).lexeme = _ from found)]
      rfl
    · rw [if_neg found, if_neg (show ¬ (token.relocate move).lexeme = _ from found)]
      rfl

theorem readName_relocate (tokens : List Token) :
    readName (tokens.map (Token.relocate move)) =
      (readName tokens).relocate move (Name.relocate move) := by
  cases tokens with
  | nil => rfl
  | cons token rest =>
    obtain ⟨lexeme, start⟩ := token
    rw [List.map_cons, readName_cons, readName_cons]
    cases lexeme <;> rfl

private theorem readParameters_relocate (tokens : List Token) :
    readParameters (tokens.map (Token.relocate move)) =
      (readParameters tokens).relocate move
        fun more => (more.1.map (Name.relocate move), move more.2) := by
  induction tokens with
  | nil => rfl
  | cons token rest ih =>
    obtain ⟨lexeme, start⟩ := token
    rw [List.map_cons, readParameters_cons, readParameters_cons]
    cases lexeme with
    | symbol fixed => cases fixed <;> rfl
    | identifier text => exact Reading.relocate_andThen ih fun _ _ _ => rfl
    | _ => rfl

/-- The readers that call one another move with their tokens, at fewer tokens than the
bound. -/
structure MovesBelow (move : Nat → Nat) (bound : Nat) : Prop where
  expression : ∀ {tokens}, tokens.length < bound → ∀ least,
    readExpression least (tokens.map (Token.relocate move)) =
      (readExpression least tokens).relocate move (Phrase.relocate move)
  continuations : ∀ {tokens}, tokens.length < bound → ∀ least left,
    readContinuations least (Phrase.relocate move left) (tokens.map (Token.relocate move)) =
      (readContinuations least left tokens).relocate move (Phrase.relocate move)
  items : ∀ {tokens}, tokens.length < bound →
    readItems (tokens.map (Token.relocate move)) =
      (readItems tokens).relocate move (Items.relocate move)
  bindings : ∀ {tokens}, tokens.length < bound →
    readBindings (tokens.map (Token.relocate move)) =
      (readBindings tokens).relocate move (Bindings.relocate move)

variable {bound : Nat} (below : MovesBelow move bound)

include below

private theorem afterOpening_relocate {token : Token} {rest : List Token}
    (fits : rest.length < bound) :
    afterOpening (token.relocate move) (rest.map (Token.relocate move)) =
      (afterOpening token rest).relocate move (Phrase.relocate move) := by
  simp only [afterOpening, show (token.relocate move).lexeme = token.lexeme from rfl]
  cases token.lexeme.opening with
  | literal value => cases value <;> rfl
  | name text => rfl
  | nothing => rfl
  | list => exact Reading.relocate_andThen (below.items fits) fun _ _ _ => rfl
  | print => exact Reading.relocate_andThen (below.expression fits 0) fun _ _ _ => rfl
  | unary op => exact Reading.relocate_andThen (below.expression fits _) fun _ _ _ => rfl
  | group =>
    refine Reading.relocate_andThen (below.expression fits 0) fun body rest₁ _ => ?_
    exact Reading.relocate_andThen (readSymbol_relocate .rightParen rest₁) fun _ _ _ => rfl
  | letIn =>
    refine Reading.relocate_andThen (below.bindings fits) fun bindings rest₁ read₁ => ?_
    refine Reading.relocate_andThen (readSymbol_relocate .kwIn rest₁) fun inAt rest₂ read₂ => ?_
    have shorter := Nat.lt_trans (Outcome.length_lt read₂) (Outcome.length_lt read₁)
    exact Reading.relocate_andThen (below.expression (Nat.lt_trans shorter fits) 0)
      fun _ _ _ => rfl
  | function =>
    refine Reading.relocate_andThen (readName_relocate rest) fun first rest₁ read₁ => ?_
    refine Reading.relocate_andThen (readParameters_relocate rest₁) fun more rest₂ read₂ => ?_
    have shorter := Nat.lt_trans (Outcome.length_lt read₂) (Outcome.length_lt read₁)
    exact Reading.relocate_andThen (below.expression (Nat.lt_trans shorter fits) 0)
      fun _ _ _ => rfl
  | conditional =>
    refine Reading.relocate_andThen (below.expression fits 0) fun condition rest₁ read₁ => ?_
    refine Reading.relocate_andThen (readSymbol_relocate .kwThen rest₁) fun place rest₂ read₂ => ?_
    have shorter := Nat.lt_trans (Outcome.length_lt read₂) (Outcome.length_lt read₁)
    refine Reading.relocate_andThen (below.expression (Nat.lt_trans shorter fits) 0)
      fun yes rest₃ read₃ => ?_
    refine Reading.relocate_andThen (readSymbol_relocate .kwElse rest₃) fun place rest₄ read₄ => ?_
    have fewer := Nat.lt_trans (Outcome.length_lt read₄) (Outcome.length_lt read₃)
    have last := Nat.lt_trans fewer (Nat.lt_trans shorter fits)
    exact Reading.relocate_andThen (below.expression last 0) fun _ _ _ => rfl

theorem expression_relocate {tokens : List Token} (fits : tokens.length ≤ bound) (least : Nat) :
    readExpression least (tokens.map (Token.relocate move)) =
      (readExpression least tokens).relocate move (Phrase.relocate move) := by
  have term : readTerm (tokens.map (Token.relocate move)) =
      (readTerm tokens).relocate move (Phrase.relocate move) := by
    cases tokens with
    | nil =>
      rw [List.map_nil, readTerm_nil]
      rfl
    | cons token rest =>
      rw [List.map_cons, readTerm_cons, readTerm_cons]
      exact afterOpening_relocate below fits
  rw [readExpression_eq, readExpression_eq]
  refine Reading.relocate_andThen term fun left rest read => ?_
  have shorter : rest.length < tokens.length := Outcome.length_lt read
  exact below.continuations (Nat.lt_of_lt_of_le shorter fits) least left

private theorem continuations_relocate {tokens : List Token} (fits : tokens.length ≤ bound)
    (least : Nat) (left : Phrase) :
    readContinuations least (Phrase.relocate move left) (tokens.map (Token.relocate move)) =
      (readContinuations least left tokens).relocate move (Phrase.relocate move) := by
  rw [readContinuations_eq, readContinuations_eq]
  cases tokens with
  | nil => rfl
  | cons token rest =>
    simp only [List.map_cons, afterOperand,
      show (token.relocate move).kind = token.kind from rfl]
    cases token.kind.continuation with
    | stop => rfl
    | misplaced => rfl
    | operator op =>
      by_cases low : op.power.left < least
      · simp only [if_pos low]
        rfl
      · simp only [if_neg low]
        refine Reading.relocate_andThen (below.expression fits _) fun right rest₁ read => ?_
        have shorter : rest₁.length < rest.length := Outcome.length_lt read
        exact below.continuations (Nat.lt_trans shorter fits) least
          (.binary left op token.start right)
    | argument =>
      by_cases low : Power.application.left < least
      · simp only [if_pos low]
        rfl
      · simp only [if_neg low]
        have argument := expression_relocate below fits Power.application.right
        refine Reading.relocate_andThen argument fun argument rest₁ read => ?_
        have shorter : rest₁.length < (token :: rest).length := Outcome.length_lt read
        exact below.continuations (Nat.lt_of_lt_of_le shorter fits) least
          (.application left argument)
    | subscript =>
      refine Reading.relocate_andThen (below.expression fits 0) fun index rest₁ read₁ => ?_
      refine Reading.relocate_andThen (readSymbol_relocate .rightBracket rest₁)
        fun closing rest₂ read₂ => ?_
      have shorter := Nat.lt_trans (Outcome.length_lt read₂) (Outcome.length_lt read₁)
      exact below.continuations (Nat.lt_trans shorter fits) least
        (.subscript left token.start index closing)

private theorem afterItem_relocate {tokens : List Token} (fits : tokens.length ≤ bound)
    (item : Phrase) :
    afterItem (Phrase.relocate move item) (tokens.map (Token.relocate move)) =
      (afterItem item tokens).relocate move (Items.relocate move) := by
  cases tokens with
  | nil => rfl
  | cons token rest =>
    simp only [List.map_cons, afterItem,
      show (token.relocate move).lexeme = token.lexeme from rfl]
    by_cases comma : token.lexeme = .symbol .comma
    · simp only [if_pos comma]
      exact Reading.relocate_andThen (below.items fits) fun _ _ _ => rfl
    · by_cases brace : token.lexeme = .symbol .rightBrace
      · simp only [if_neg comma, if_pos brace]
        rfl
      · simp only [if_neg comma, if_neg brace]
        rfl

private theorem items_relocate {tokens : List Token} (fits : tokens.length ≤ bound) :
    readItems (tokens.map (Token.relocate move)) =
      (readItems tokens).relocate move (Items.relocate move) := by
  cases tokens with
  | nil =>
    rw [List.map_nil, readItems_nil]
    rfl
  | cons token rest =>
    have whole := expression_relocate below fits 0
    rw [List.map_cons] at whole ⊢
    rw [readItems_cons, readItems_cons, show (token.relocate move).lexeme = token.lexeme from rfl]
    by_cases brace : token.lexeme = .symbol .rightBrace
    · rw [if_pos brace, if_pos brace]
      rfl
    · rw [if_neg brace, if_neg brace]
      refine Reading.relocate_andThen whole fun item rest₁ read => ?_
      have shorter : rest₁.length < (token :: rest).length := Outcome.length_lt read
      exact afterItem_relocate below (Nat.le_of_lt (Nat.lt_of_lt_of_le shorter fits)) item

private theorem afterValue_relocate {tokens : List Token} (fits : tokens.length ≤ bound)
    (name : Name)
    (assign : Nat) (value : Phrase) :
    afterValue (name.relocate move) (move assign) (Phrase.relocate move value)
        (tokens.map (Token.relocate move)) =
      (afterValue name assign value tokens).relocate move (Bindings.relocate move) := by
  cases tokens with
  | nil => rfl
  | cons token rest =>
    simp only [List.map_cons, afterValue,
      show (token.relocate move).lexeme = token.lexeme from rfl]
    by_cases comma : token.lexeme = .symbol .comma
    · simp only [if_pos comma]
      exact Reading.relocate_andThen (below.bindings fits) fun _ _ _ => rfl
    · simp only [if_neg comma]
      rfl

private theorem bindings_relocate {tokens : List Token} (fits : tokens.length ≤ bound) :
    readBindings (tokens.map (Token.relocate move)) =
      (readBindings tokens).relocate move (Bindings.relocate move) := by
  rw [readBindings_eq, readBindings_eq]
  refine Reading.relocate_andThen (readName_relocate tokens) fun name rest₁ read₁ => ?_
  refine Reading.relocate_andThen (readSymbol_relocate .assign rest₁) fun assign rest₂ read₂ => ?_
  have shorter := Nat.lt_trans (Outcome.length_lt read₂) (Outcome.length_lt read₁)
  have fewer := Nat.lt_of_lt_of_le shorter fits
  refine Reading.relocate_andThen (below.expression fewer 0) fun value rest₃ read₃ => ?_
  have last := Nat.lt_trans (Outcome.length_lt read₃) fewer
  exact afterValue_relocate below (Nat.le_of_lt last) name assign value

end Readers

private theorem movesBelow (move : Nat → Nat) (bound : Nat) : MovesBelow move bound := by
  induction bound with
  | zero => constructor <;> intro tokens fewer <;> exact absurd fewer (Nat.not_lt_zero _)
  | succ bound below =>
    constructor <;> intro tokens fewer <;> have fits := Nat.le_of_lt_succ fewer
    · exact expression_relocate below fits
    · exact continuations_relocate below fits
    · exact items_relocate below fits
    · exact bindings_relocate below fits

/-- Moved tokens are read to the moved phrase, or refused at the moved token for the same
reason. -/
theorem readProgram_relocate (move : Nat → Nat) (tokens : List Token) :
    readProgram (tokens.map (Token.relocate move)) =
      match readProgram tokens with
      | .ok phrase => .ok (phrase.relocate move)
      | .error stop => .error (stop.relocate move) := by
  rw [readProgram_eq, readProgram_eq,
    (movesBelow move (tokens.length + 1)).expression (Nat.lt_succ_self _) 0]
  cases readExpression 0 tokens with
  | error stop => rfl
  | ok found =>
    obtain ⟨phrase, rest⟩ := found
    cases rest <;> rfl

/-- Where the program at some tokens is refused, it is refused at the same of the moved ones. -/
theorem exists_failure_relocate (move : Nat → Nat) {tokens : List Token} {failure : Failure}
    (read : program tokens = .error failure) :
    ∃ moved, program (tokens.map (Token.relocate move)) = .error moved ∧
      moved.stop = failure.stop.relocate move := by
  have stopped := readProgram_relocate move tokens
  rw [readProgram, readProgram, read] at stopped
  cases readMoved : program (tokens.map (Token.relocate move)) with
  | ok phrase =>
    rw [readMoved] at stopped
    cases stopped
  | error moved =>
    rw [readMoved] at stopped
    exact ⟨moved, rfl, Except.error.inj stopped⟩

end ClamSyntax.Parser
