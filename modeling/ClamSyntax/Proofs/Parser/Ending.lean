import ClamSyntax.Proofs.Parser.Soundness

/-! Where expressions end. Behind a finished operand the tokens fall into five classes: operators,
tokens that open a term, the bracket of a subscript, tokens that end an expression, and three that
are misplaced there. An expression that is read at a least power stops before what the power leaves,
at the power zero only before a token that ends an expression. So where the token that closes a form
is missing, there is another one of those. -/

namespace ClamSyntax

namespace TokenKind

/-- The tokens that end an expression. -/
def terminators : List TokenKind :=
  [.symbol .rightParen, .symbol .rightBracket, .symbol .rightBrace, .symbol .comma, .symbol .kwIn,
    .symbol .kwThen, .symbol .kwElse, .endOfInput]

/-- The tokens that neither go on with an operand nor end an expression. -/
def misplaced : List TokenKind := [.symbol .assign, .symbol .arrow, .invalid]

private theorem mem_terminators_iff {kind : TokenKind} :
    kind ∈ terminators ↔ kind.terminates = true := by
  cases kind with
  | symbol fixed => cases fixed <;> simp [terminators, terminates]
  | _ => simp [terminators, terminates]

end TokenKind

/-- The tokens that mean this behind an operand. -/
def Continuation.Covers (kind : TokenKind) : Continuation → Prop
  | .operator op => kind.binaryOp? = some op
  | .argument => kind.opensTerm = true
  | .subscript => kind = .symbol .leftBracket
  | .stop => kind.terminates = true
  | .misplaced => kind ∈ TokenKind.misplaced

/-- Every token is in exactly one class. -/
theorem TokenKind.continuation_eq_iff {kind : TokenKind} {next : Continuation} :
    kind.continuation = next ↔ next.Covers kind := by
  cases kind with
  | symbol fixed =>
    cases fixed <;> cases next <;>
      simp [continuation, Continuation.Covers, binaryOp?, opensTerm, terminates, misplaced]
  | _ =>
    cases next <;>
      simp [continuation, Continuation.Covers, binaryOp?, opensTerm, terminates, misplaced]

def nextKind (tokens : List Token) : TokenKind := (tokens.head?.map Token.kind).getD .endOfInput

private theorem upcoming_eq (tokens : List Token) :
    upcoming tokens = (nextKind tokens).continuation := by
  cases tokens <;> rfl

/-- The kind may stand behind an expression that was read at this least power. -/
def TokenKind.Behind (least : Nat) (kind : TokenKind) : Prop :=
  kind ∈ terminators ∨ (∃ op, kind.binaryOp? = some op ∧ op.power.left < least) ∨
    (Power.application.left < least ∧ kind.opensTerm = true)

theorem TokenKind.behind_of_stops {kind : TokenKind} {least : Nat}
    (stops : kind.continuation.Stops least) : kind.Behind least := by
  cases next : kind.continuation with
  | operator op =>
    rw [next] at stops
    exact .inr (.inl ⟨op, continuation_eq_iff.mp next, stops⟩)
  | argument =>
    rw [next] at stops
    exact .inr (.inr ⟨stops, continuation_eq_iff.mp next⟩)
  | stop => exact .inl (mem_terminators_iff.mpr (continuation_eq_iff.mp next))
  | subscript | misplaced =>
    rw [next] at stops
    exact stops.elim

/-- Neither the bracket of a subscript nor a misplaced token stands there. -/
theorem TokenKind.not_mem_of_stops {kind : TokenKind} {least : Nat}
    (stops : kind.continuation.Stops least) : kind ∉ .symbol .leftBracket :: misplaced := by
  intro member
  rcases List.mem_cons.mp member with bracket | wrong
  · rw [continuation_eq_iff.mpr (show Continuation.subscript.Covers kind from bracket)] at stops
    exact stops
  · rw [continuation_eq_iff.mpr (show Continuation.misplaced.Covers kind from wrong)] at stops
    exact stops

private theorem TokenKind.mem_terminators_of_stops {kind : TokenKind}
    (stops : kind.continuation.Stops 0) : kind ∈ terminators := by
  rcases behind_of_stops stops with ends | ⟨op, -, low⟩ | ⟨low, -⟩
  · exact ends
  · exact absurd low (Nat.not_lt_zero _)
  · exact absurd low (Nat.not_lt_zero _)

/-- What closes a form or ends the source, behind an expression. -/
def Expectation.closing : List Expectation :=
  [.symbol .rightParen, .symbol .rightBracket, .symbol .kwIn, .symbol .kwThen, .symbol .kwElse,
    .itemSeparator, .endOfInput]

namespace Parser

/-- Where something closing was due, there is a token that ends an expression. -/
def Stop.Apt (stop : Stop) : Prop :=
  ∀ expected ∈ Expectation.closing, stop.reason = .expected expected →
    nextKind stop.rest ∈ TokenKind.terminators

/-- If the reading stops, then aptly. -/
def Reading.Apt (reading : Reading α) : Prop := ∀ stop, reading = .error stop → stop.Apt

namespace Reading.Apt

variable {reading : Reading α} {next : α → List Token → Reading β}

theorem ok (value : α) (rest : List Token) : Reading.Apt (.ok (value, rest)) := nofun

theorem refuse {reason : Reason} {rest : List Token}
    (open_ : ∀ expected ∈ Expectation.closing, reason ≠ .expected expected) :
    Reading.Apt (.error ⟨reason, rest⟩ : Reading α) := by
  rintro stop ⟨⟩ expected closes same
  exact absurd same (open_ expected closes)

private theorem atTerminator {reason : Reason} {rest : List Token}
    (ends : nextKind rest ∈ TokenKind.terminators) :
    Reading.Apt (.error ⟨reason, rest⟩ : Reading α) := by
  rintro stop ⟨⟩ expected - -
  exact ends

theorem andThen (apt : reading.Apt)
    (behind : ∀ value rest, reading = .ok (value, rest) → (next value rest).Apt) :
    (reading.andThen next).Apt := by
  cases reading with
  | error stop =>
    rintro other ⟨⟩
    exact apt stop rfl
  | ok found => exact behind found.1 found.2 rfl

theorem last {build : α → β} (apt : reading.Apt) :
    (reading.andThen fun value rest => .ok (build value, rest)).Apt :=
  apt.andThen fun _ _ _ => .ok _ _

end Reading.Apt

theorem readExpression_stops {least : Nat} {tokens rest : List Token} {phrase : Phrase}
    (read : readExpression least tokens = .ok (phrase, rest)) :
    (nextKind rest).continuation.Stops least := by
  obtain ⟨-, -, -, -, ends, -⟩ := (expression_accounts_all least tokens).read read
  rw [← upcoming_eq]
  exact ends.1

theorem readExpression_terminated {tokens rest : List Token} {phrase : Phrase}
    (read : readExpression 0 tokens = .ok (phrase, rest)) :
    nextKind rest ∈ TokenKind.terminators :=
  TokenKind.mem_terminators_of_stops (readExpression_stops read)

private theorem Reading.andThen_eq_ok {reading : Reading α} {next : α → List Token → Reading β}
    {result : β × List Token} (read : reading.andThen next = .ok result) :
    ∃ value rest, reading = .ok (value, rest) ∧ next value rest = .ok result := by
  cases reading with
  | error stop => cases read
  | ok found => exact ⟨found.1, found.2, rfl, read⟩

private theorem readBindings_terminated {tokens rest : List Token} {bindings : Bindings}
    (read : readBindings tokens = .ok (bindings, rest)) :
    nextKind rest ∈ TokenKind.terminators := by
  induction bound : tokens.length using Nat.strongRecOn generalizing tokens bindings with
  | ind length ih =>
    rw [readBindings_eq] at read
    obtain ⟨name, rest₁, named, read⟩ := Reading.andThen_eq_ok read
    obtain ⟨assign, rest₂, assigned, read⟩ := Reading.andThen_eq_ok read
    obtain ⟨value, rest₃, valued, read⟩ := Reading.andThen_eq_ok read
    have ended := readExpression_terminated valued
    cases rest₃ with
    | nil =>
      cases read
      exact ended
    | cons separator rest₄ =>
      rw [afterValue] at read
      split at read
      · obtain ⟨more, rest₅, others, read⟩ := Reading.andThen_eq_ok read
        cases read
        have shorter₁ : rest₁.length < tokens.length := Outcome.length_lt named
        have shorter₂ : rest₂.length < rest₁.length := Outcome.length_lt assigned
        have shorter₃ : (separator :: rest₄).length < rest₂.length := Outcome.length_lt valued
        rw [List.length_cons] at shorter₃
        exact ih rest₄.length (by omega) others rfl
      · cases read
        exact ended

/-! The readers that call no other -/

theorem readSymbol_stop {fixed : Symbol} {tokens : List Token} {stop : Stop}
    (stopped : readSymbol fixed tokens = .error stop) :
    stop = ⟨.expected (.symbol fixed), tokens⟩ := by
  cases tokens with
  | nil =>
    cases stopped
    rfl
  | cons token rest =>
    rw [readSymbol_cons] at stopped
    split at stopped <;> cases stopped
    rfl

/-- Behind an expression a symbol is missed at a token that ends it. -/
theorem readSymbol_apt (fixed : Symbol) {tokens : List Token}
    (ends : nextKind tokens ∈ TokenKind.terminators) : (readSymbol fixed tokens).Apt := by
  rintro stop stopped expected - -
  rw [readSymbol_stop stopped]
  exact ends

private theorem readAssign_apt (tokens : List Token) : (readSymbol .assign tokens).Apt := by
  rintro stop stopped expected closes same
  rw [readSymbol_stop stopped] at same
  cases same
  exact absurd closes (by decide)

theorem readName_apt (tokens : List Token) : (readName tokens).Apt := by
  have refused (rest : List Token) :
      Reading.Apt (.error ⟨.expected .identifier, rest⟩ : Reading Name) :=
    .refuse (by decide)
  cases tokens with
  | nil => exact refused []
  | cons token rest =>
    rw [readName_cons]
    split
    · exact .ok _ _
    · exact refused _

private theorem readParameters_apt (tokens : List Token) : (readParameters tokens).Apt := by
  have refused (rest : List Token) :
      Reading.Apt (.error ⟨.expected (.symbol .arrow), rest⟩ : Reading (List Name × Nat)) :=
    .refuse (by decide)
  induction tokens with
  | nil => exact refused []
  | cons token rest ih =>
    rw [readParameters_cons]
    split
    · exact .ok _ _
    · exact ih.last
    · exact refused _

/-- The readers that call one another stop aptly, at fewer tokens than the bound. -/
structure AptBelow (bound : Nat) : Prop where
  expression : ∀ {tokens : List Token}, tokens.length < bound → ∀ least,
    (readExpression least tokens).Apt
  continuations : ∀ {tokens : List Token}, tokens.length < bound → ∀ least left,
    (readContinuations least left tokens).Apt
  items : ∀ {tokens : List Token}, tokens.length < bound → (readItems tokens).Apt
  bindings : ∀ {tokens : List Token}, tokens.length < bound → (readBindings tokens).Apt

section Readers

variable {bound : Nat} (below : AptBelow bound)

include below

private theorem afterOpening_apt (token : Token) {rest : List Token} (fits : rest.length < bound) :
    (afterOpening token rest).Apt := by
  rw [afterOpening]
  cases token.lexeme.opening with
  | literal result =>
    cases result with
    | ok value => exact .ok _ _
    | error fault => exact .refuse (by rintro _ _ ⟨⟩)
  | name text => exact .ok _ _
  | list => exact (below.items fits).last
  | letIn =>
    refine (below.bindings fits).andThen fun bindings rest₁ bound => ?_
    refine (readSymbol_apt .kwIn (readBindings_terminated bound)).andThen
      fun inAt rest₂ closed => ?_
    have shorter₁ : rest₁.length < rest.length := Outcome.length_lt bound
    have shorter₂ : rest₂.length < rest₁.length := Outcome.length_lt closed
    exact (below.expression (by omega) 0).last
  | function =>
    refine (readName_apt rest).andThen fun first rest₁ named => ?_
    refine (readParameters_apt rest₁).andThen fun more rest₂ listed => ?_
    have shorter₁ : rest₁.length < rest.length := Outcome.length_lt named
    have shorter₂ : rest₂.length < rest₁.length := Outcome.length_lt listed
    exact (below.expression (by omega) 0).last
  | print => exact (below.expression fits 0).last
  | conditional =>
    refine (below.expression fits 0).andThen fun condition rest₁ first => ?_
    refine (readSymbol_apt .kwThen (readExpression_terminated first)).andThen
      fun thenAt rest₂ closed₁ => ?_
    have shorter₁ : rest₁.length < rest.length := Outcome.length_lt first
    have shorter₂ : rest₂.length < rest₁.length := Outcome.length_lt closed₁
    refine (below.expression (by omega) 0).andThen fun yes rest₃ second => ?_
    refine (readSymbol_apt .kwElse (readExpression_terminated second)).andThen
      fun elseAt rest₄ closed₂ => ?_
    have shorter₃ : rest₃.length < rest₂.length := Outcome.length_lt second
    have shorter₄ : rest₄.length < rest₃.length := Outcome.length_lt closed₂
    exact (below.expression (by omega) 0).last
  | unary op => exact (below.expression fits op.power).last
  | group =>
    refine (below.expression fits 0).andThen fun body rest₁ inner => ?_
    exact (readSymbol_apt .rightParen (readExpression_terminated inner)).last
  | nothing => exact .refuse (by decide)

variable {tokens : List Token} (fits : tokens.length ≤ bound)

include fits

theorem term_apt : (readTerm tokens).Apt := by
  cases tokens with
  | nil =>
    rw [readTerm_nil]
    exact .refuse (by decide)
  | cons token rest =>
    rw [readTerm_cons]
    exact afterOpening_apt below token fits

theorem expression_apt (least : Nat) : (readExpression least tokens).Apt := by
  rw [readExpression_eq]
  refine (term_apt below fits).andThen fun left rest first => ?_
  have shorter : rest.length < tokens.length := Outcome.length_lt first
  exact below.continuations (by omega) least left

/-- Every turn of the loop behind an operand stops aptly, or the loop goes on with fewer tokens. -/
theorem continuations_apt (least : Nat) (left : Phrase) :
    (readContinuations least left tokens).Apt := by
  rw [readContinuations_eq]
  cases tokens with
  | nil => exact .ok _ _
  | cons token rest =>
    rw [afterOperand]
    cases token.kind.continuation with
    | operator op =>
      dsimp only
      split
      · exact .ok _ _
      · refine (below.expression fits op.power.right).andThen fun right rest₁ operand => ?_
        have shorter : rest₁.length < rest.length := Outcome.length_lt operand
        exact below.continuations (Nat.lt_trans shorter fits) least _
    | argument =>
      dsimp only
      split
      · exact .ok _ _
      · refine (expression_apt below fits _).andThen fun argument rest₁ operand => ?_
        have shorter : rest₁.length < (token :: rest).length := Outcome.length_lt operand
        exact below.continuations (Nat.lt_of_lt_of_le shorter fits) least _
    | subscript =>
      refine (below.expression fits 0).andThen fun index rest₁ inner => ?_
      refine (readSymbol_apt .rightBracket (readExpression_terminated inner)).andThen
        fun closing rest₂ closed => ?_
      have shorter₁ : rest₁.length < rest.length := Outcome.length_lt inner
      have shorter₂ : rest₂.length < rest₁.length := Outcome.length_lt closed
      exact below.continuations (Nat.lt_trans (Nat.lt_trans shorter₂ shorter₁) fits) least _
    | stop => exact .ok _ _
    | misplaced => exact .refuse (by decide)

private theorem items_apt : (readItems tokens).Apt := by
  cases tokens with
  | nil =>
    rw [readItems_nil]
    exact .refuse (by decide)
  | cons token rest =>
    rw [readItems_cons]
    split
    · exact .ok _ _
    refine (expression_apt below fits 0).andThen fun item rest₁ first => ?_
    have ended := readExpression_terminated first
    have shorter : rest₁.length < (token :: rest).length := Outcome.length_lt first
    cases rest₁ with
    | nil => exact .atTerminator ended
    | cons separator rest₂ =>
      rw [afterItem]
      split
      · exact (below.items (Nat.lt_of_lt_of_le (Nat.lt_of_succ_lt shorter) fits)).last
      · split
        · exact .ok _ _
        · exact .atTerminator ended

private theorem bindings_apt : (readBindings tokens).Apt := by
  rw [readBindings_eq]
  refine (readName_apt tokens).andThen fun name rest₁ named => ?_
  refine (readAssign_apt rest₁).andThen fun assign rest₂ assigned => ?_
  have shorter₁ : rest₁.length < tokens.length := Outcome.length_lt named
  have shorter₂ : rest₂.length < rest₁.length := Outcome.length_lt assigned
  refine (below.expression (by omega) 0).andThen fun value rest₃ valued => ?_
  have shorter₃ : rest₃.length < rest₂.length := Outcome.length_lt valued
  cases rest₃ with
  | nil => exact .ok _ _
  | cons separator rest₄ =>
    rw [afterValue]
    split
    · rw [List.length_cons] at shorter₃
      exact (below.bindings (by omega)).last
    · exact .ok _ _

end Readers

theorem aptBelow (bound : Nat) : AptBelow bound := by
  induction bound with
  | zero => constructor <;> intro tokens fewer <;> exact absurd fewer (Nat.not_lt_zero _)
  | succ bound below =>
    constructor <;> intro tokens fewer <;> have fits := Nat.le_of_lt_succ fewer
    · exact expression_apt below fits
    · exact continuations_apt below fits
    · exact items_apt below fits
    · exact bindings_apt below fits

/-- Behind a whole expression only the end is not refused, and nothing but what ends one. -/
theorem readProgram_apt {tokens : List Token} {stop : Stop}
    (refused : readProgram tokens = .error stop) : stop.Apt := by
  have apt := (aptBelow (tokens.length + 1)).expression (Nat.lt_succ_self _) 0
  rw [readProgram_eq] at refused
  split at refused
  · rename_i stopped
    cases refused
    exact apt _ stopped
  · cases refused
  · rename_i read
    cases refused
    exact fun _ _ _ => readExpression_terminated read

end Parser

end ClamSyntax
