import ClamSyntax.Proofs.Parser.Soundness

namespace ClamSyntax

private theorem Bindings.flatMap_pieces (bindings : Bindings) :
    bindings.pieces.flatMap Piece.tokens = bindings.tokens := by
  cases bindings with
  | last => simp [pieces, tokens, Piece.tokens]
  | more _ _ _ _ rest => simp [pieces, tokens, Piece.tokens, rest.flatMap_pieces]

namespace Parser

/-- The tokens that were read before the offending one. -/
def Failure.taken (failure : Failure) : List Token := failure.pieces.flatMap Piece.tokens

/-- What was taken and what was left make up the tokens. -/
def Outcome.Splits (spell : α → List Token) (tokens : List Token) : Outcome α origin → Prop
  | .read value rest _ => tokens = spell value ++ rest
  | .failed failure => tokens = failure.taken ++ failure.rest

/-- The value and the tokens behind it, or the failure. -/
def Outcome.result : Outcome α origin → Except Failure (α × List Token)
  | .read value rest _ => .ok (value, rest)
  | .failed failure => .error failure

/-- The failure of a part keeps what was read before for the same value. -/
theorem Outcome.Splits.after {spell : β → List Token} {spellWhole : α → List Token}
    {origin others tokens whole : List Token} {before : List Piece} {failure : Failure}
    (part : (failed failure : Outcome β others).Splits spell tokens)
    (opened : whole = before.flatMap Piece.tokens ++ tokens) :
    (failed (failure.after before) : Outcome α origin).Splits spellWhole whole := by
  have split : tokens = failure.taken ++ failure.rest := part
  simp [Splits, opened, split, Failure.after, Failure.taken]

@[elab_as_elim]
theorem Outcome.Splits.elim {spell : α → List Token} {origin tokens : List Token}
    {motive : Outcome α origin → Prop} {outcome : Outcome α origin}
    (splits : outcome.Splits spell tokens)
    (stopped : ∀ failure, (failed failure : Outcome α origin).Splits spell tokens →
      motive (.failed failure))
    (reads : ∀ value rest shorter, tokens = spell value ++ rest →
      motive (.read value rest shorter)) : motive outcome := by
  cases outcome with
  | failed failure => exact stopped failure splits
  | read value rest shorter => exact reads value rest shorter splits

private theorem flatMap_inner (names : List Name) :
    (names.map fun name => Piece.inner name.token).flatMap Piece.tokens =
      names.map Name.token := by
  rw [List.flatMap_map, List.map_eq_flatMap]
  rfl

theorem expect_splits (fixed : Symbol) (tokens : List Token) :
    (expect fixed tokens).Splits (fun start => [fixed.at start]) tokens := by
  cases tokens with
  | nil => rfl
  | cons token rest =>
    obtain ⟨lexeme, start⟩ := token
    rw [expect]
    by_cases found : lexeme = .symbol fixed
    · subst found
      rw [if_pos rfl]
      rfl
    · rw [if_neg found]
      rfl

theorem identifier_splits (tokens : List Token) :
    (identifier tokens).Splits (fun name => [name.token]) tokens := by
  cases tokens with
  | nil => rfl
  | cons token rest =>
    obtain ⟨lexeme, start⟩ := token
    cases lexeme <;> rfl

private theorem parameters_splits (tokens : List Token) :
    (parameters tokens).Splits
      (fun more => more.1.map Name.token ++ [Symbol.arrow.at more.2]) tokens := by
  induction tokens with
  | nil => rfl
  | cons token rest ih =>
    obtain ⟨lexeme, start⟩ := token
    cases lexeme with
    | symbol fixed => cases fixed <;> rfl
    | identifier text =>
      rw [parameters]
      generalize parameters rest = outcome at ih
      rcases outcome with ⟨more, rest₁, _⟩ | failure
      · exact congrArg (_ :: ·) ih
      · exact ih.after rfl
    | _ => rfl

/-- The readers that call one another split their tokens, at fewer of them than the bound. -/
structure SplitsBelow (bound : Nat) : Prop where
  expression : ∀ {tokens}, tokens.length < bound → ∀ least,
    (expression least tokens).Splits Phrase.tokens tokens
  continuations : ∀ {tokens}, tokens.length < bound → ∀ origin least left shorter,
    (continuations origin least left tokens shorter).Splits Phrase.tokens (left.tokens ++ tokens)
  items : ∀ {tokens}, tokens.length < bound → (items tokens).Splits Items.tokens tokens
  bindings : ∀ {tokens}, tokens.length < bound →
    (bindings tokens).Splits Bindings.tokens tokens

section Forms

/-! The parts of a form are read one behind the other. The first one that fails ends the reading,
and what was read before it are the pieces that the form puts in front. -/

variable {bound start : Nat} (below : SplitsBelow bound) {rest : List Token}
  (fits : rest.length < bound)

include below fits

private theorem list_splits :
    (term (Symbol.leftBrace.at start :: rest)).Splits Phrase.tokens
      (Symbol.leftBrace.at start :: rest) := by
  have opens : (Symbol.leftBrace.at start).lexeme.opening = .list := rfl
  rw [term.eq_def]
  simp only [opens]
  refine (below.items fits).elim (fun _ kept => kept.after rfl) ?_
  rintro items rest₁ _ rfl
  rfl

private theorem letIn_splits :
    (term (Symbol.kwLet.at start :: rest)).Splits Phrase.tokens
      (Symbol.kwLet.at start :: rest) := by
  have opens : (Symbol.kwLet.at start).lexeme.opening = .letIn := rfl
  rw [term.eq_def]
  simp only [opens]
  refine (below.bindings fits).elim (fun _ kept => kept.after rfl) ?_
  rintro bound rest₁ shorter₁ rfl
  dsimp only
  refine (expect_splits .kwIn rest₁).elim (fun _ kept => kept.after ?_) ?_
  · simp [Piece.tokens, Bindings.flatMap_pieces]
  rintro inAt rest₂ shorter₂ rfl
  dsimp only
  have fewer := Nat.lt_trans shorter₂ (Nat.lt_trans shorter₁ fits)
  refine (below.expression fewer 0).elim (fun _ kept => kept.after ?_) ?_
  · simp [Piece.tokens, Bindings.flatMap_pieces]
  rintro body rest₃ _ rfl
  simp [Outcome.Splits, Phrase.tokens, Symbol.at]

private theorem function_splits :
    (term (Symbol.kwFun.at start :: rest)).Splits Phrase.tokens
      (Symbol.kwFun.at start :: rest) := by
  have opens : (Symbol.kwFun.at start).lexeme.opening = .function := rfl
  rw [term.eq_def]
  simp only [opens]
  refine (identifier_splits rest).elim (fun _ kept => kept.after rfl) ?_
  rintro first rest₁ shorter₁ rfl
  dsimp only
  refine (parameters_splits rest₁).elim (fun _ kept => kept.after rfl) ?_
  rintro ⟨more, arrow⟩ rest₂ shorter₂ rfl
  dsimp only
  have fewer := Nat.lt_trans shorter₂ (Nat.lt_trans shorter₁ fits)
  refine (below.expression fewer 0).elim (fun _ kept => kept.after ?_) ?_
  · simp [Piece.tokens, flatMap_inner]
  rintro body rest₃ _ rfl
  simp [Outcome.Splits, Phrase.tokens, Symbol.at]

private theorem print_splits :
    (term (Symbol.kwPrint.at start :: rest)).Splits Phrase.tokens
      (Symbol.kwPrint.at start :: rest) := by
  have opens : (Symbol.kwPrint.at start).lexeme.opening = .print := rfl
  rw [term.eq_def]
  simp only [opens]
  refine (below.expression fits 0).elim (fun _ kept => kept.after rfl) ?_
  rintro operand rest₁ _ rfl
  rfl

private theorem conditional_splits :
    (term (Symbol.kwIf.at start :: rest)).Splits Phrase.tokens
      (Symbol.kwIf.at start :: rest) := by
  have opens : (Symbol.kwIf.at start).lexeme.opening = .conditional := rfl
  rw [term.eq_def]
  simp only [opens]
  refine (below.expression fits 0).elim (fun _ kept => kept.after rfl) ?_
  rintro condition rest₁ shorter₁ rfl
  dsimp only
  refine (expect_splits .kwThen rest₁).elim (fun _ kept => kept.after ?_) ?_
  · simp [Piece.tokens]
  rintro thenAt rest₂ shorter₂ rfl
  dsimp only
  have fewer₂ := Nat.lt_trans shorter₂ (Nat.lt_trans shorter₁ fits)
  refine (below.expression fewer₂ 0).elim (fun _ kept => kept.after ?_) ?_
  · simp [Piece.tokens]
  rintro yes rest₃ shorter₃ rfl
  dsimp only
  refine (expect_splits .kwElse rest₃).elim (fun _ kept => kept.after ?_) ?_
  · simp [Piece.tokens]
  rintro elseAt rest₄ shorter₄ rfl
  dsimp only
  have fewer₄ := Nat.lt_trans shorter₄ (Nat.lt_trans shorter₃ fewer₂)
  refine (below.expression fewer₄ 0).elim (fun _ kept => kept.after ?_) ?_
  · simp [Piece.tokens]
  rintro no rest₅ _ rfl
  simp [Outcome.Splits, Phrase.tokens, Symbol.at]

private theorem unary_splits (op : UnaryOp) :
    (term (op.symbol.at start :: rest)).Splits Phrase.tokens (op.symbol.at start :: rest) := by
  have opens : (op.symbol.at start).lexeme.opening = .unary op := by cases op <;> rfl
  rw [term.eq_def]
  simp only [opens]
  refine (below.expression fits op.power).elim (fun _ kept => kept.after rfl) ?_
  rintro operand rest₁ _ rfl
  rfl

private theorem group_splits :
    (term (Symbol.leftParen.at start :: rest)).Splits Phrase.tokens
      (Symbol.leftParen.at start :: rest) := by
  have opens : (Symbol.leftParen.at start).lexeme.opening = .group := rfl
  rw [term.eq_def]
  simp only [opens]
  refine (below.expression fits 0).elim (fun _ kept => kept.after rfl) ?_
  rintro body rest₁ shorter₁ rfl
  dsimp only
  refine (expect_splits .rightParen rest₁).elim (fun _ kept => kept.after ?_) ?_
  · simp [Piece.tokens]
  rintro closing rest₂ _ rfl
  simp [Outcome.Splits, Phrase.tokens, Symbol.at]

end Forms

section Readers

variable {bound : Nat} (below : SplitsBelow bound) {tokens : List Token}
  (fits : tokens.length ≤ bound)

include below fits

theorem term_splits : (term tokens).Splits Phrase.tokens tokens := by
  cases tokens with
  | nil =>
    rw [term.eq_def]
    rfl
  | cons token rest =>
    obtain ⟨lexeme, start⟩ := token
    -- a token that opens a literal, a name or nothing is all that is looked at
    have single (opens : (∃ value, lexeme.opening = .literal value) ∨
        (∃ text, lexeme = .identifier text) ∨ lexeme.opening = .nothing) :
        (term (⟨lexeme, start⟩ :: rest)).Splits Phrase.tokens (⟨lexeme, start⟩ :: rest) := by
      rw [term.eq_def]
      rcases opens with ⟨value, opens⟩ | ⟨text, rfl⟩ | opens
      · simp only [opens]
        cases value <;> rfl
      · rfl
      · simp only [opens]
        rfl
    cases lexeme with
    | integer | decimal | quoted => exact single (.inl ⟨_, rfl⟩)
    | identifier text => exact single (.inr (.inl ⟨text, rfl⟩))
    | invalid | endOfInput => exact single (.inr (.inr rfl))
    | symbol fixed =>
      cases fixed with
      | kwTrue | kwFalse | kwUnit => exact single (.inl ⟨_, rfl⟩)
      | leftBrace => exact list_splits below fits
      | kwLet => exact letIn_splits below fits
      | kwFun => exact function_splits below fits
      | kwPrint => exact print_splits below fits
      | kwIf => exact conditional_splits below fits
      | kwNot => exact unary_splits below fits .not
      | leftParen => exact group_splits below fits
      | binary op =>
        cases op with
        | sub => exact unary_splits below fits .negate
        | _ => exact single (.inr (.inr rfl))
      | _ => exact single (.inr (.inr rfl))

theorem expression_splits (least : Nat) :
    (expression least tokens).Splits Phrase.tokens tokens := by
  rw [expression]
  refine (term_splits below fits).elim (fun _ kept => kept) ?_
  rintro left rest shorter rfl
  exact below.continuations (Nat.lt_of_lt_of_le shorter fits) _ least left shorter

private theorem continuations_splits (origin : List Token) (least : Nat) (left : Phrase)
    (shorter : tokens.length < origin.length) :
    (continuations origin least left tokens shorter).Splits Phrase.tokens
      (left.tokens ++ tokens) := by
  rw [continuations.eq_def]
  cases tokens with
  | nil => rfl
  | cons token rest =>
    simp only
    cases next : token.kind.continuation with
    | stop => rfl
    | misplaced => exact congrArg (· ++ token :: rest) (List.append_nil left.tokens).symm
    | operator op =>
      obtain ⟨lexeme, start⟩ := token
      cases lexeme_of_operator next
      dsimp only
      split
      · rfl
      refine (below.expression fits op.power.right).elim (fun _ kept => kept.after ?_) ?_
      · simp [Piece.tokens]
      rintro right rest₁ shorter₁ rfl
      have whole := below.continuations (Nat.lt_trans shorter₁ fits) origin least
        (.binary left op start right)
      simp only [Phrase.tokens, List.append_assoc, List.cons_append] at whole
      exact whole _
    | argument =>
      dsimp only
      split
      · rfl
      refine (expression_splits below fits Power.application.right).elim
        (fun _ kept => kept.after ?_) ?_
      · simp [Piece.tokens]
      rintro argument rest₁ shorter₁ split
      have whole := below.continuations (Nat.lt_of_lt_of_le shorter₁ fits) origin least
        (.application left argument)
      rw [Phrase.tokens, List.append_assoc, ← split] at whole
      exact whole _
    | subscript =>
      obtain ⟨lexeme, start⟩ := token
      cases lexeme_of_subscript next
      dsimp only
      refine (below.expression fits 0).elim (fun _ kept => kept.after ?_) ?_
      · simp [Piece.tokens]
      rintro index rest₁ shorter₁ rfl
      dsimp only
      refine (expect_splits .rightBracket rest₁).elim (fun _ kept => kept.after ?_) ?_
      · simp [Piece.tokens]
      rintro closing rest₂ shorter₂ rfl
      have whole := below.continuations (Nat.lt_trans shorter₂ (Nat.lt_trans shorter₁ fits)) origin
        least (.subscript left start index closing)
      simp only [Phrase.tokens, List.append_assoc, List.cons_append, List.nil_append] at whole
      exact whole _

private theorem items_splits : (items tokens).Splits Items.tokens tokens := by
  rw [items.eq_def]
  cases closes : expect .rightBrace tokens with
  | read closing rest shorter =>
    have split := expect_splits .rightBrace tokens
    rw [closes] at split
    exact split
  | failed _ =>
    dsimp only
    refine (expression_splits below fits 0).elim (fun _ kept => kept) ?_
    rintro item rest₁ shorter₁ rfl
    have fewer := Nat.lt_of_lt_of_le shorter₁ fits
    dsimp only
    cases continues : expect .comma rest₁ with
    | read comma rest₂ shorter₂ =>
      have split := expect_splits .comma rest₁
      rw [continues] at split
      obtain rfl : rest₁ = Symbol.comma.at comma :: rest₂ := split
      dsimp only
      refine (below.items (Nat.lt_trans shorter₂ fewer)).elim (fun _ kept => kept.after ?_) ?_
      · simp [Piece.tokens]
      rintro more rest₃ _ rfl
      simp [Outcome.Splits, Items.tokens]
    | failed _ =>
      dsimp only
      cases closes : expect .rightBrace rest₁ with
      | read closing rest₂ shorter₂ =>
        have split := expect_splits .rightBrace rest₁
        rw [closes] at split
        obtain rfl : rest₁ = Symbol.rightBrace.at closing :: rest₂ := split
        simp [Outcome.Splits, Items.tokens]
      | failed _ => simp [Outcome.Splits, Failure.taken, Piece.tokens]

private theorem bindings_splits : (bindings tokens).Splits Bindings.tokens tokens := by
  rw [bindings.eq_def]
  refine (identifier_splits tokens).elim (fun _ kept => kept) ?_
  rintro name rest₁ shorter₁ rfl
  dsimp only
  refine (expect_splits .assign rest₁).elim (fun _ kept => kept.after rfl) ?_
  rintro assign rest₂ shorter₂ rfl
  dsimp only
  have fewer₂ := Nat.lt_of_lt_of_le (Nat.lt_trans shorter₂ shorter₁) fits
  refine (below.expression fewer₂ 0).elim (fun _ kept => kept.after rfl) ?_
  rintro value rest₃ shorter₃ rfl
  dsimp only
  cases continues : expect .comma rest₃ with
  | failed _ => simp [Outcome.Splits, Bindings.tokens]
  | read comma rest₄ shorter₄ =>
    have split := expect_splits .comma rest₃
    rw [continues] at split
    obtain rfl : rest₃ = Symbol.comma.at comma :: rest₄ := split
    have fewer₄ := Nat.lt_trans shorter₄ (Nat.lt_trans shorter₃ fewer₂)
    dsimp only
    refine (below.bindings fewer₄).elim (fun _ kept => kept.after ?_) ?_
    · simp [Piece.tokens]
    rintro more rest₅ _ rfl
    simp [Outcome.Splits, Bindings.tokens]

end Readers

/-- The induction on the bound, which all readers share because they call one another. -/
theorem splitsBelow (bound : Nat) : SplitsBelow bound := by
  induction bound with
  | zero => constructor <;> intro tokens fewer <;> exact absurd fewer (Nat.not_lt_zero _)
  | succ bound below =>
    constructor <;> intro tokens fewer <;> have fits := Nat.le_of_lt_succ fewer
    · exact expression_splits below fits
    · exact continuations_splits below fits
    · exact items_splits below fits
    · exact bindings_splits below fits

end Parser

end ClamSyntax
