import ClamSyntax.Proofs.Phrase.Grammar

namespace ClamSyntax.Parser

/-- Where reading stopped and why; the offending token comes first. -/
structure Stop where
  reason : Reason
  rest : List Token

/-- The error that a reading stopped with. -/
def Stop.error (stop : Stop) (size : Nat) : SyntaxError :=
  (Failure.mk stop.reason [] stop.rest).error size

abbrev Reading (α : Type) := Except Stop (α × List Token)

def Failure.stop (failure : Failure) : Stop := ⟨failure.reason, failure.rest⟩

def Outcome.reading : Outcome α origin → Reading α
  | .read value rest _ => .ok (value, rest)
  | .failed failure => .error failure.stop

theorem Outcome.length_lt {origin rest : List Token} {outcome : Outcome α origin} {value : α}
    (read : outcome.reading = .ok (value, rest)) : rest.length < origin.length := by
  cases outcome with
  | failed failure => cases read
  | read value rest shorter =>
    cases read
    exact shorter

def Reading.andThen (reading : Reading α) (next : α → List Token → Reading β) : Reading β :=
  match reading with
  | .ok (value, rest) => next value rest
  | .error stop => .error stop

def readSymbol (fixed : Symbol) (tokens : List Token) : Reading Nat :=
  (expect fixed tokens).reading

def readName (tokens : List Token) : Reading Name := (identifier tokens).reading

def readParameters (tokens : List Token) : Reading (List Name × Nat) :=
  (parameters tokens).reading

def readTerm (tokens : List Token) : Reading Phrase := (term tokens).reading

def readExpression (least : Nat) (tokens : List Token) : Reading Phrase :=
  (expression least tokens).reading

theorem length_lt_behind (tokens : List Token) :
    tokens.length < (Token.atEnd 0 :: tokens).length := Nat.lt_succ_self tokens.length

/-- The origin only bounds the recursion, so any longer list serves. -/
def readContinuations (least : Nat) (left : Phrase) (tokens : List Token) : Reading Phrase :=
  (continuations (Token.atEnd 0 :: tokens) least left tokens (length_lt_behind tokens)).reading

def readItems (tokens : List Token) : Reading Items := (items tokens).reading

def readBindings (tokens : List Token) : Reading Bindings := (bindings tokens).reading

theorem readSymbol_nil (fixed : Symbol) :
    readSymbol fixed [] = .error ⟨.expected (.symbol fixed), []⟩ := rfl

theorem readSymbol_cons (fixed : Symbol) (token : Token) (rest : List Token) :
    readSymbol fixed (token :: rest) =
      if token.lexeme = .symbol fixed then .ok (token.start, rest)
      else .error ⟨.expected (.symbol fixed), token :: rest⟩ := by
  simp only [readSymbol, expect]
  split <;> rfl

theorem readSymbol_at (fixed : Symbol) (start : Nat) (rest : List Token) :
    readSymbol fixed (fixed.at start :: rest) = .ok (start, rest) := by
  rw [readSymbol_cons]
  exact if_pos rfl

theorem readName_nil : readName [] = .error ⟨.expected .identifier, []⟩ := rfl

theorem readName_cons (token : Token) (rest : List Token) :
    readName (token :: rest) =
      match token.lexeme with
      | .identifier text => .ok (⟨text, token.start⟩, rest)
      | _ => .error ⟨.expected .identifier, token :: rest⟩ := by
  simp only [readName, identifier]
  split <;> simp_all [Outcome.reading, Failure.stop]

theorem readParameters_nil :
    readParameters [] = .error ⟨.expected (.symbol .arrow), []⟩ := rfl

theorem readParameters_cons (token : Token) (rest : List Token) :
    readParameters (token :: rest) =
      match token.lexeme with
      | .symbol .arrow => .ok (([], token.start), rest)
      | .identifier text =>
        (readParameters rest).andThen fun more rest₁ =>
          .ok ((⟨text, token.start⟩ :: more.1, more.2), rest₁)
      | _ => .error ⟨.expected (.symbol .arrow), token :: rest⟩ := by
  obtain ⟨lexeme, start⟩ := token
  simp only [readParameters]
  cases lexeme with
  | symbol fixed => cases fixed <;> rfl
  | identifier text =>
    rw [parameters]
    cases parameters rest <;> rfl
  | _ => rfl

/-- The reading behind the token that opens a form; none where the token opens nothing. -/
def afterOpening (token : Token) (rest : List Token) : Reading Phrase :=
  match token.lexeme.opening with
  | .literal (.ok value) => .ok (.literal token value, rest)
  | .literal (.error fault) => .error ⟨.badEscape fault, token :: rest⟩
  | .name text => .ok (.name ⟨text, token.start⟩, rest)
  | .list => (readItems rest).andThen fun items rest₁ => .ok (.list token.start items, rest₁)
  | .letIn =>
    (readBindings rest).andThen fun bindings rest₁ =>
      (readSymbol .kwIn rest₁).andThen fun inAt rest₂ =>
        (readExpression 0 rest₂).andThen fun body rest₃ =>
          .ok (.letIn token.start bindings inAt body, rest₃)
  | .function =>
    (readName rest).andThen fun first rest₁ =>
      (readParameters rest₁).andThen fun more rest₂ =>
        (readExpression 0 rest₂).andThen fun body rest₃ =>
          .ok (.function token.start first more.1 more.2 body, rest₃)
  | .print =>
    (readExpression 0 rest).andThen fun operand rest₁ => .ok (.print token.start operand, rest₁)
  | .conditional =>
    (readExpression 0 rest).andThen fun condition rest₁ =>
      (readSymbol .kwThen rest₁).andThen fun thenAt rest₂ =>
        (readExpression 0 rest₂).andThen fun yes rest₃ =>
          (readSymbol .kwElse rest₃).andThen fun elseAt rest₄ =>
            (readExpression 0 rest₄).andThen fun no rest₅ =>
              .ok (.conditional token.start condition thenAt yes elseAt no, rest₅)
  | .unary op =>
    (readExpression op.power rest).andThen fun operand rest₁ =>
      .ok (.unary op token.start operand, rest₁)
  | .group =>
    (readExpression 0 rest).andThen fun body rest₁ =>
      (readSymbol .rightParen rest₁).andThen fun closing rest₂ =>
        .ok (.group token.start body closing, rest₂)
  | .nothing => .error ⟨.expected .expression, token :: rest⟩

theorem readTerm_nil : readTerm [] = .error ⟨.expected .expression, []⟩ := by
  rw [readTerm, term]
  rfl

theorem readTerm_cons (token : Token) (rest : List Token) :
    readTerm (token :: rest) = afterOpening token rest := by
  simp only [readTerm, afterOpening, readItems, readBindings, readSymbol, readName,
    readParameters, readExpression]
  rw [term.eq_def]
  simp only
  repeat' split
  all_goals simp_all [Outcome.reading, Reading.andThen, Failure.stop, Failure.after]

/-- The reading behind a finished operand, by the token that stands there. -/
def afterOperand (least : Nat) (left : Phrase) : List Token → Reading Phrase
  | [] => .ok (left, [])
  | token :: rest =>
    match token.kind.continuation with
    | .operator op =>
      if op.power.left < least then .ok (left, token :: rest)
      else
        (readExpression op.power.right rest).andThen fun right rest₁ =>
          readContinuations least (.binary left op token.start right) rest₁
    | .argument =>
      if Power.application.left < least then .ok (left, token :: rest)
      else
        (readExpression Power.application.right (token :: rest)).andThen fun argument rest₁ =>
          readContinuations least (.application left argument) rest₁
    | .subscript =>
      (readExpression 0 rest).andThen fun index rest₁ =>
        (readSymbol .rightBracket rest₁).andThen fun closing rest₂ =>
          readContinuations least (.subscript left token.start index closing) rest₂
    | .stop => .ok (left, token :: rest)
    | .misplaced => .error ⟨.expected .continuation, token :: rest⟩

def afterItem (item : Phrase) : List Token → Reading Items
  | [] => .error ⟨.expected .itemSeparator, []⟩
  | token :: rest =>
    if token.lexeme = .symbol .comma then
      (readItems rest).andThen fun more rest₁ => .ok (.more item token.start more, rest₁)
    else if token.lexeme = .symbol .rightBrace then .ok (.last item token.start, rest)
    else .error ⟨.expected .itemSeparator, token :: rest⟩

def afterValue (name : Name) (assign : Nat) (value : Phrase) : List Token → Reading Bindings
  | [] => .ok (.last name assign value, [])
  | token :: rest =>
    if token.lexeme = .symbol .comma then
      (readBindings rest).andThen fun more rest₁ =>
        .ok (.more name assign value token.start more, rest₁)
    else .ok (.last name assign value, token :: rest)

theorem afterItem_comma (item : Phrase) (comma : Nat) (rest : List Token) :
    afterItem item (Symbol.comma.at comma :: rest) =
      (readItems rest).andThen fun more rest₁ => .ok (.more item comma more, rest₁) := by
  simp only [afterItem, Symbol.at, if_pos]

theorem afterValue_comma (name : Name) (assign : Nat) (value : Phrase) (comma : Nat)
    (rest : List Token) :
    afterValue name assign value (Symbol.comma.at comma :: rest) =
      (readBindings rest).andThen fun more rest₁ =>
        .ok (.more name assign value comma more, rest₁) := by
  simp only [afterValue, Symbol.at, if_pos]

private theorem continuations_reading (least length : Nat) :
    ∀ (origin : List Token) (left : Phrase) (tokens : List Token)
      (shorter : tokens.length < origin.length), tokens.length ≤ length →
      (continuations origin least left tokens shorter).reading =
        afterOperand least left tokens := by
  induction length with
  | zero =>
    intro origin left tokens shorter bound
    have empty := List.length_eq_zero_iff.mp (Nat.le_zero.mp bound)
    subst empty
    rw [continuations]
    rfl
  | succ length ih =>
    intro origin left tokens shorter bound
    cases tokens with
    | nil =>
      rw [continuations]
      rfl
    | cons token rest =>
      rw [continuations.eq_def]
      have again (left : Phrase) (rest₁ : List Token) (shorter₁ : rest₁.length < origin.length)
          (fewer : rest₁.length ≤ rest.length) :
          (continuations origin least left rest₁ shorter₁).reading =
            readContinuations least left rest₁ := by
        have enough : rest₁.length ≤ length :=
          Nat.le_trans fewer (Nat.le_of_succ_le_succ bound)
        exact (ih origin left rest₁ shorter₁ enough).trans (ih _ left rest₁ _ enough).symm
      simp only [afterOperand]
      cases token.kind.continuation with
      | operator op =>
        by_cases low : op.power.left < least
        · simp only [if_pos low]
          rfl
        · simp only [if_neg low, readExpression]
          cases expression op.power.right rest with
          | failed failure => rfl
          | read operand rest₁ shorter₁ => exact again _ _ _ (Nat.le_of_lt shorter₁)
      | argument =>
        by_cases low : Power.application.left < least
        · simp only [if_pos low]
          rfl
        · simp only [if_neg low, readExpression]
          cases expression Power.application.right (token :: rest) with
          | failed failure => rfl
          | read operand rest₁ shorter₁ => exact again _ _ _ (Nat.le_of_lt_succ shorter₁)
      | subscript =>
        simp only [readExpression]
        cases expression 0 rest with
        | failed failure => rfl
        | read index rest₁ shorter₁ =>
          simp only [Outcome.reading, Reading.andThen, readSymbol]
          cases expect .rightBracket rest₁ with
          | failed failure => rfl
          | read closing rest₂ shorter₂ =>
            exact again _ _ _ (Nat.le_of_lt (Nat.lt_trans shorter₂ shorter₁))
      | stop => rfl
      | misplaced => rfl

theorem readContinuations_eq (least : Nat) (left : Phrase) (tokens : List Token) :
    readContinuations least left tokens = afterOperand least left tokens :=
  continuations_reading least _ _ left tokens _ (Nat.le_refl _)

theorem readExpression_eq (least : Nat) (tokens : List Token) :
    readExpression least tokens = (readTerm tokens).andThen (readContinuations least) := by
  simp only [readExpression, expression, readTerm]
  cases term tokens with
  | failed failure => rfl
  | read left rest shorter =>
    exact (continuations_reading least _ _ left rest shorter (Nat.le_refl _)).trans
      (readContinuations_eq least left rest).symm

theorem readExpression_nil (least : Nat) :
    readExpression least [] = .error ⟨.expected .expression, []⟩ := by
  rw [readExpression_eq, readTerm_nil]
  rfl

theorem readItems_nil : readItems [] = .error ⟨.expected .expression, []⟩ := by
  have empty := readExpression_nil 0
  simp only [readExpression] at empty
  rw [readItems, items.eq_def]
  simp only [expect]
  cases found : expression 0 [] with
  | read item rest shorter => exact absurd shorter (Nat.not_lt_zero _)
  | failed failure =>
    rw [found] at empty
    exact congrArg Except.error (Except.error.inj empty)

theorem readItems_cons (token : Token) (rest : List Token) :
    readItems (token :: rest) =
      if token.lexeme = .symbol .rightBrace then .ok (.close token.start, rest)
      else (readExpression 0 (token :: rest)).andThen afterItem := by
  rw [readItems, items.eq_def]
  by_cases brace : token.lexeme = .symbol .rightBrace
  · simp only [expect, if_pos brace]
    rfl
  · simp only [expect, if_neg brace, readExpression]
    cases expression 0 (token :: rest) with
    | failed failure => rfl
    | read item rest₁ shorter₁ =>
      simp only [Outcome.reading, Reading.andThen]
      cases rest₁ with
      | nil => rfl
      | cons separator rest₂ =>
        simp only [afterItem]
        by_cases comma : separator.lexeme = .symbol .comma
        · simp only [if_pos comma, readItems]
          cases items rest₂ <;> rfl
        · by_cases last : separator.lexeme = .symbol .rightBrace
          · simp only [if_neg comma, if_pos last]
          · simp only [if_neg comma, if_neg last]
            rfl

theorem readBindings_eq (tokens : List Token) :
    readBindings tokens =
      (readName tokens).andThen fun name rest₁ =>
        (readSymbol .assign rest₁).andThen fun assign rest₂ =>
          (readExpression 0 rest₂).andThen (afterValue name assign) := by
  rw [readBindings, bindings.eq_def]
  simp only [readName, readSymbol, readExpression]
  cases identifier tokens with
  | failed failure => rfl
  | read name rest₁ shorter₁ =>
    simp only [Outcome.reading, Reading.andThen]
    cases expect .assign rest₁ with
    | failed failure => rfl
    | read assign rest₂ shorter₂ =>
      simp only
      cases expression 0 rest₂ with
      | failed failure => rfl
      | read value rest₃ shorter₃ =>
        simp only
        cases rest₃ with
        | nil => rfl
        | cons separator rest₄ =>
          simp only [expect, afterValue]
          by_cases comma : separator.lexeme = .symbol .comma
          · simp only [if_pos comma, readBindings]
            cases bindings rest₄ <;> rfl
          · simp only [if_neg comma]

def readProgram (tokens : List Token) : Except Stop Phrase := (program tokens).mapError Failure.stop

theorem readProgram_eq (tokens : List Token) :
    readProgram tokens =
      match readExpression 0 tokens with
      | .error stop => .error stop
      | .ok (phrase, []) => .ok phrase
      | .ok (_, token :: rest) => .error ⟨.expected .endOfInput, token :: rest⟩ := by
  simp only [readProgram, program, readExpression]
  cases expression 0 tokens with
  | failed failure => rfl
  | read phrase rest shorter => cases rest <;> rfl

end ClamSyntax.Parser
