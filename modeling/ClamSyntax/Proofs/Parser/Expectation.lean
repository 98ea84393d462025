import ClamSyntax.Proofs.Parser.Offer

/-! Every reader is truthful. Whatever was expected could really have stood in the place of the
offending token: the tokens before it and any token on offer begin a grammatical phrase. Operators
are handed from operand to operand outwards, and the outermost expression takes them all. -/

namespace ClamSyntax

namespace Parser

/-! The readers that call no other -/

theorem symbol_truthful (fixed : Symbol) (tokens : List Token) :
    Truthful (Category.symbol fixed).Takes [] (readSymbol fixed) tokens := by
  have offer : ∃ lexeme : Lexeme, lexeme.Proper ∧ (Expectation.symbol fixed).Offers lexeme :=
    ⟨.symbol fixed, trivial, rfl⟩
  have welcome (token : Token) (offered : (Expectation.symbol fixed).Offers token.lexeme) :
      (Category.symbol fixed).Takes [] token := by
    obtain ⟨lexeme, start⟩ := token
    obtain rfl : lexeme = .symbol fixed := offered
    exact (Category.symbol fixed).begins_of_holds start trivial
  cases tokens with
  | nil => exact .refuse (readSymbol_nil fixed) offer welcome
  | cons token rest =>
    by_cases found : token.lexeme = .symbol fixed
    · exact .given ((readSymbol_cons fixed token rest).trans (if_pos found))
    · exact .refuse ((readSymbol_cons fixed token rest).trans (if_neg found)) offer welcome

theorem name_truthful (tokens : List Token) : Truthful Category.name.Takes [] readName tokens := by
  have offer : ∃ lexeme : Lexeme, lexeme.Proper ∧ Expectation.identifier.Offers lexeme :=
    ⟨filler.token.lexeme, filler_proper, filler.text, rfl⟩
  have welcome (token : Token) (offered : Expectation.identifier.Offers token.lexeme) :
      Category.name.Takes [] token := by
    obtain ⟨lexeme, start⟩ := token
    obtain ⟨text, rfl⟩ := offered
    exact Category.name.begins_of_holds ⟨text, start⟩ trivial
  cases tokens with
  | nil => exact .refuse readName_nil offer welcome
  | cons token rest =>
    obtain ⟨lexeme, start⟩ := token
    cases lexeme with
    | identifier text => exact .given (readName_cons _ rest)
    | _ => exact .refuse (readName_cons _ rest) offer welcome

private theorem parameters_truthful (tokens : List Token) :
    Truthful Category.parameters.Takes [] readParameters tokens := by
  have offer : ∃ lexeme : Lexeme, lexeme.Proper ∧ (Expectation.symbol .arrow).Offers lexeme :=
    ⟨.symbol .arrow, trivial, rfl⟩
  have welcome (token : Token) (offered : (Expectation.symbol .arrow).Offers token.lexeme) :
      Category.parameters.Takes [] token := by
    obtain ⟨lexeme, start⟩ := token
    obtain rfl : lexeme = .symbol .arrow := offered
    exact Category.parameters.begins_of_holds ([], start) trivial
  induction tokens with
  | nil => exact .refuse readParameters_nil offer welcome
  | cons token rest ih =>
    obtain ⟨lexeme, start⟩ := token
    cases lexeme with
    | symbol fixed =>
      by_cases arrow : fixed = .arrow
      · subst arrow
        exact .given (readParameters_cons _ rest)
      · refine .refuse ?_ offer welcome
        rw [readParameters_cons]
        cases fixed <;> first | rfl | exact absurd rfl arrow
    | identifier text =>
      refine .token (readParameters_cons _) (.last ih ?_)
      exact Category.takes_within fun more _ =>
        Category.parameters.begins_of_holds (⟨text, start⟩ :: more.1, more.2) trivial
    | _ => exact .refuse (readParameters_cons _ rest) offer welcome

/-! Operands -/

theorem term_takes {token : Token} (offered : Expectation.expression.Offers token.lexeme) :
    Category.term.Takes [] token := by
  obtain ⟨lexeme, start⟩ := token
  rcases offered with ⟨name, rfl⟩ | ⟨value, denotes⟩ | ⟨fixed, member, rfl⟩
  · exact Category.term.begins_of_holds (.name ⟨name, start⟩) ⟨trivial, trivial⟩
  · exact Category.term.begins_of_holds (.literal ⟨lexeme, start⟩ value) ⟨denotes, trivial⟩
  · simp only [List.mem_cons, List.not_mem_nil, or_false] at member
    rcases member with rfl | rfl | rfl | rfl
    · exact ⟨.group start (.name filler) 0, [filler.token, Symbol.rightParen.at 0], rfl,
        ⟨trivial, trivial⟩, by simp⟩
    · exact ⟨.list start (.close 0), [Symbol.rightBrace.at 0], rfl, ⟨trivial, trivial⟩, by simp⟩
    · exact ⟨.unary .negate start (.name filler), [filler.token], rfl,
        ⟨⟨trivial, by simp [Phrase.leftSpine, Phrase.Admits]⟩, trivial⟩, by simp⟩
    · exact ⟨.unary .not start (.name filler), [filler.token], rfl,
        ⟨⟨trivial, by simp [Phrase.leftSpine, Phrase.Admits]⟩, trivial⟩, by simp⟩

/-- A term that ends with an operand welcomes what the operand welcomes. -/
theorem term_welcomes_last (build : Phrase → Phrase) {least : Nat} {before : List Token}
    (spelled : ∀ operand, (build operand).tokens = before ++ operand.tokens)
    (holds : ∀ operand, (Category.expression least).Holds operand →
      Category.term.Holds (build operand))
    (last : ∀ operand, (build operand).lastOperand? = some (least, operand)) :
    ∀ taken token, (Category.expression least).Welcomes taken token →
      Category.term.Welcomes (before ++ taken) token :=
  Category.welcomes_last build spelled holds fun operand _ ends =>
    (Phrase.releases_iff_of_lastOperand (last operand)).mpr ends

theorem expression_offer :
    ∃ lexeme : Lexeme, lexeme.Proper ∧ Expectation.expression.Offers lexeme :=
  ⟨filler.token.lexeme, filler_proper, .inl ⟨filler.text, rfl⟩⟩

/-- The readers that call one another, at fewer tokens than the bound. -/
structure TruthfulBelow (bound : Nat) : Prop where
  expression : ∀ {tokens}, tokens.length < bound → ∀ least,
    Truthful (Category.expression least).Welcomes [] (readExpression least) tokens
  continuations : ∀ {tokens}, tokens.length < bound → ∀ {least left},
    (Category.expression least).Holds left → left.Releases (upcoming tokens) →
    Truthful (Category.expression least).Welcomes left.tokens (readContinuations least left) tokens
  items : ∀ {tokens}, tokens.length < bound →
    Truthful Category.items.Takes [] readItems tokens
  bindings : ∀ {tokens}, tokens.length < bound →
    Truthful Category.bindings.Takes [] readBindings tokens

section Forms

variable {bound start : Nat} (below : TruthfulBelow bound) {rest : List Token}

include below

theorem TruthfulBelow.whole (fits : rest.length < bound) :
    Truthful (Category.expression 0).Takes [] (readExpression 0) rest :=
  (below.expression fits 0).mono takes_of_welcomes

variable (fits : rest.length < bound)

include fits

private theorem list_truthful :
    Truthful Category.term.Welcomes [Symbol.leftBrace.at start]
      (afterOpening (Symbol.leftBrace.at start)) rest := by
  apply Truthful.last (below.items fits)
  exact Category.welcomes_part fun items valid =>
    Category.term.begins_of_holds (.list start items) ⟨valid, trivial⟩

private theorem print_truthful :
    Truthful Category.term.Welcomes [Symbol.kwPrint.at start]
      (afterOpening (Symbol.kwPrint.at start)) rest := by
  apply Truthful.last (below.expression fits 0)
  apply term_welcomes_last (.print start)
  · intro operand
    rfl
  · intro operand holds
    exact ⟨holds.1, trivial⟩
  · intro operand
    rfl

private theorem unary_truthful (op : UnaryOp) :
    Truthful Category.term.Welcomes [op.symbol.at start]
      (afterOpening (op.symbol.at start)) rest := by
  have opens : (op.symbol.at start).lexeme.opening = .unary op := by cases op <;> rfl
  have same : afterOpening (op.symbol.at start) = fun later =>
      (readExpression op.power later).andThen fun operand rest₁ =>
        .ok (.unary op start operand, rest₁) := by
    funext later
    simp only [afterOpening, opens]
    rfl
  rw [same]
  apply Truthful.last (below.expression fits op.power)
  apply term_welcomes_last (.unary op start)
  · intro operand
    rfl
  · intro operand holds
    exact ⟨holds, trivial⟩
  · intro operand
    rfl

private theorem group_truthful :
    Truthful Category.term.Welcomes [Symbol.leftParen.at start]
      (afterOpening (Symbol.leftParen.at start)) rest := by
  apply Truthful.sequence (expression_accounts_all 0 rest) (below.whole fits)
  · intro body rest₁ holds _ _
    apply Truthful.last (symbol_truthful .rightParen rest₁)
    exact Category.welcomes_part fun closing _ =>
      Category.term.begins_of_holds (.group start body closing) ⟨holds.1, trivial⟩
  · exact Category.welcomes_part fun body holds => group_begins holds.1

private theorem letIn_truthful :
    Truthful Category.term.Welcomes [Symbol.kwLet.at start]
      (afterOpening (Symbol.kwLet.at start)) rest := by
  apply Truthful.sequence ((accountsBelow bound).bindings fits) (below.bindings fits)
  · intro bound rest₁ valid _ split₁
    apply Truthful.sequence (symbol_accounts .kwIn rest₁) (symbol_truthful .kwIn rest₁)
    · intro inAt rest₂ _ _ split₂
      have behind : rest₂ <:+ rest := .trans ⟨_, split₂.symm⟩ ⟨_, split₁.symm⟩
      apply Truthful.last (below.expression (Nat.lt_of_le_of_lt behind.length_le fits) 0)
      apply term_welcomes_last (.letIn start bound inAt)
      · intro body
        simp [Phrase.tokens, Symbol.at]
      · intro body holds
        exact ⟨⟨valid, holds.1⟩, trivial⟩
      · intro body
        rfl
    · exact Category.welcomes_part fun inAt _ => letIn_begins_body valid inAt
  · exact Category.welcomes_part fun bound valid => letIn_begins valid

private theorem function_truthful :
    Truthful Category.term.Welcomes [Symbol.kwFun.at start]
      (afterOpening (Symbol.kwFun.at start)) rest := by
  apply Truthful.sequence (name_accounts rest) (name_truthful rest)
  · intro first rest₁ _ _ split₁
    apply Truthful.sequence (parameters_accounts rest₁) (parameters_truthful rest₁)
    · intro more rest₂ _ _ split₂
      have behind : rest₂ <:+ rest := .trans ⟨_, split₂.symm⟩ ⟨_, split₁.symm⟩
      apply Truthful.last (below.expression (Nat.lt_of_le_of_lt behind.length_le fits) 0)
      apply term_welcomes_last (.function start first more.1 more.2)
      · intro body
        simp [Phrase.tokens, Symbol.at]
      · intro body holds
        exact ⟨holds.1, trivial⟩
      · intro body
        rfl
    · exact Category.welcomes_part fun more _ => function_begins_body first more
  · exact Category.welcomes_part fun first _ => function_begins first

private theorem conditional_truthful :
    Truthful Category.term.Welcomes [Symbol.kwIf.at start]
      (afterOpening (Symbol.kwIf.at start)) rest := by
  apply Truthful.sequence (expression_accounts_all 0 rest) (below.whole fits)
  · intro condition rest₁ first _ split₁
    apply Truthful.sequence (symbol_accounts .kwThen rest₁) (symbol_truthful .kwThen rest₁)
    · intro thenAt rest₂ _ _ split₂
      have behind₂ : rest₂ <:+ rest := .trans ⟨_, split₂.symm⟩ ⟨_, split₁.symm⟩
      apply Truthful.sequence (expression_accounts_all 0 rest₂)
        (below.whole (Nat.lt_of_le_of_lt behind₂.length_le fits))
      · intro yes rest₃ second _ split₃
        apply Truthful.sequence (symbol_accounts .kwElse rest₃) (symbol_truthful .kwElse rest₃)
        · intro elseAt rest₄ _ _ split₄
          have behind₄ : rest₄ <:+ rest :=
            .trans (.trans ⟨_, split₄.symm⟩ ⟨_, split₃.symm⟩) behind₂
          apply Truthful.last (below.expression (Nat.lt_of_le_of_lt behind₄.length_le fits) 0)
          apply term_welcomes_last (.conditional start condition thenAt yes elseAt)
          · intro no
            simp [Phrase.tokens, Symbol.at]
          · intro no third
            exact ⟨⟨first.1, second.1, third.1⟩, trivial⟩
          · intro no
            rfl
        · exact Category.welcomes_part fun elseAt _ =>
            conditional_begins_no first.1 second.1 thenAt elseAt
      · exact Category.welcomes_part fun yes second =>
          conditional_begins_else first.1 second.1 thenAt
    · exact Category.welcomes_part fun thenAt _ => conditional_begins_yes first.1 thenAt
  · exact Category.welcomes_part fun condition first => conditional_begins first.1

/-- The reading behind a token that opens a term. -/
theorem afterOpening_truthful {token : Token} (opens : token.lexeme.opening ≠ .nothing) :
    Truthful Category.term.Welcomes [token] (afterOpening token) rest := by
  have complete {value : Phrase} (opening : afterOpening token rest = .ok (value, rest)) :
      Truthful Category.term.Welcomes [token] (afterOpening token) rest := .given opening
  obtain ⟨lexeme, start⟩ := token
  cases lexeme with
  | integer digits => exact complete rfl
  | decimal whole fraction => exact complete rfl
  | identifier text => exact complete rfl
  | quoted body =>
    -- where the escapes are bad, nothing is expected: the string itself is at fault
    have denotes : Literal.value? (.quoted body) =
        some ((Literal.unescape body).map fun text => .str (String.ofList text)) := rfl
    refine ⟨fun found => ?_⟩
    simp only [afterOpening, Phrase.opening_of_value denotes] at found
    cases escapes : Literal.unescape body <;> rw [escapes] at found <;> cases found
  | invalid text => exact absurd rfl opens
  | endOfInput => exact absurd rfl opens
  | symbol fixed =>
    cases fixed with
    | kwTrue | kwFalse | kwUnit => exact complete rfl
    | leftBrace => exact list_truthful below fits
    | kwLet => exact letIn_truthful below fits
    | kwFun => exact function_truthful below fits
    | kwPrint => exact print_truthful below fits
    | kwIf => exact conditional_truthful below fits
    | leftParen => exact group_truthful below fits
    | kwNot => exact unary_truthful below fits .not
    | binary op =>
      cases op with
      | sub => exact unary_truthful below fits .negate
      | _ => exact absurd rfl opens
    | _ => exact absurd rfl opens

end Forms

private theorem term_truthful {bound : Nat} (below : TruthfulBelow bound) {tokens : List Token}
    (fits : tokens.length ≤ bound) :
    Truthful Category.term.Welcomes [] readTerm tokens := by
  have welcome (token : Token) (offered : Expectation.expression.Offers token.lexeme) :
      Category.term.Welcomes [] token := .inl (term_takes offered)
  cases tokens with
  | nil => exact .refuse readTerm_nil expression_offer welcome
  | cons token rest =>
    by_cases opens : token.lexeme.opening = .nothing
    · refine .refuse ?_ expression_offer welcome
      simp only [readTerm_cons, afterOpening, opens]
    · exact .token (readTerm_cons token) (afterOpening_truthful below fits opens)

section Operators

variable {least : Nat} {left : Phrase} {token : Token} {op : BinaryOp}

/-- An operator behind a finished expression goes on with it, or is left to the readers around. -/
theorem welcomes_operator (holds : (Category.expression least).Holds left)
    (releases : left.Releases (.operator op)) (operator : token.lexeme = .symbol (.binary op)) :
    (Category.expression least).Welcomes left.tokens token := by
  by_cases low : op.power.left < least
  · exact .inr ⟨left, op, operator, rfl, holds, low, releases⟩
  · obtain ⟨lexeme, start⟩ := token
    obtain rfl : lexeme = .symbol (.binary op) := operator
    have operand : (Category.expression op.power.right).Holds (.name filler) :=
      ⟨trivial, (show (Phrase.name filler).IsTerm from trivial).admits _⟩
    exact .inl ⟨.binary left op start (.name filler), [filler.token],
      by simp [Phrase.tokens, Symbol.at], binary_holds holds releases low operand, by simp⟩

/-- So an expression welcomes what its last operand welcomes. -/
theorem expression_welcomes_last (build : Phrase → Phrase) {part : Category Phrase}
    {before : List Token}
    (spelled : ∀ operand, (build operand).tokens = before ++ part.tokens operand)
    (holds : ∀ operand, part.Holds operand → (Category.expression least).Holds (build operand))
    (ends : ∀ operand op, part.Ends operand (.operator op) →
      (build operand).Releases (.operator op))
    (taken : List Token) (token : Token) (welcome : part.Welcomes taken token) :
    (Category.expression least).Welcomes (before ++ taken) token := by
  rcases welcome with takes | ⟨operand, op, operator, rfl, valid, ended⟩
  · refine Category.welcomes_part (fun operand valid => ?_) taken token takes
    rw [← spelled operand]
    exact Category.begins_of_holds (.expression least) _ (holds operand valid)
  · rw [← spelled operand]
    exact welcomes_operator (holds operand valid) (ends operand op ended) operator

end Operators

theorem expression_truthful {bound : Nat} (below : TruthfulBelow bound) {tokens : List Token}
    (fits : tokens.length ≤ bound) (least : Nat) :
    Truthful (Category.expression least).Welcomes [] (readExpression least) tokens := by
  rw [funext (readExpression_eq least)]
  apply Truthful.sequence (term_accounts (accountsBelow bound) fits) (term_truthful below fits)
  · intro left rest holds ends split
    exact below.continuations (length_lt_of_split split fits)
      ⟨holds.1, holds.2.admits least⟩ ends
  · exact expression_welcomes_last id (fun _ => rfl)
      (fun left holds => ⟨holds.1, holds.2.admits least⟩) fun _ _ ends => ends

private theorem opens_of_argument {lexeme : Lexeme}
    (argument : lexeme.kind.continuation = .argument) :
    lexeme.opening ≠ .nothing := by
  intro nothing
  cases lexeme with
  | quoted body =>
    have denotes : Literal.value? (.quoted body) =
        some ((Literal.unescape body).map fun text => .str (String.ofList text)) := rfl
    rw [Phrase.opening_of_value denotes] at nothing
    cases nothing
  | symbol fixed =>
    cases fixed <;> first | exact absurd argument (by decide) | cases nothing | cases argument
  | invalid text => exact absurd argument (show TokenKind.invalid.continuation ≠ _ by decide)
  | endOfInput => exact absurd argument (by decide)
  | _ => nomatch nothing

/-- A token that can be an argument is not refused itself. So a minus sign, which is on offer for
an expression but begins no argument, is never on offer for the first token of one. -/
theorem stops_behind_argument {bound : Nat} (below : TruthfulBelow bound) {token : Token}
    {rest others : List Token} (fits : (token :: rest).length ≤ bound)
    (argument : token.kind.continuation = .argument) {least : Nat} {what : Expectation}
    (found : readExpression least (token :: rest) = .error ⟨.expected what, others⟩) :
    others.length < (token :: rest).length := by
  rw [readExpression_eq, readTerm_cons] at found
  cases opened : afterOpening token rest with
  | error stop =>
    rw [opened] at found
    cases found
    have opening := afterOpening_truthful below fits (opens_of_argument argument)
    obtain ⟨-, taken, split, -⟩ := opening.stopped opened
    rw [List.length_cons, split, List.length_append]
    omega
  | ok reading =>
    obtain ⟨left, rest₁⟩ := reading
    rw [opened] at found
    obtain ⟨spelling, split, spelled, holds, ends, -⟩ :=
      (term_accounts (accountsBelow bound) fits).read ((readTerm_cons token rest).trans opened)
    have splitLeft : token :: rest = left.tokens ++ rest₁ := 
      split.trans (congrArg (· ++ rest₁) spelled.symm)
    have behind := below.continuations (length_lt_of_split splitLeft fits)
      ⟨holds.1, holds.2.admits least⟩ ends
    obtain ⟨-, taken, splitMore, -⟩ := behind.stopped found
    have fewer := length_lt_of_split splitLeft (Nat.le_refl _)
    rw [splitMore, List.length_append] at fewer
    omega

private theorem argument_truthful {bound : Nat} (below : TruthfulBelow bound) {token : Token}
    {rest : List Token} (fits : (token :: rest).length ≤ bound)
    (argument : token.kind.continuation = .argument) :
    Truthful Category.argument.Welcomes [] (readExpression Power.application.right)
      (token :: rest) where
  stopped {what others} found := by
    obtain ⟨offer, taken, split, welcome⟩ :=
      (expression_truthful below fits Power.application.right).stopped found
    have behind := stops_behind_argument below fits argument found
    cases taken with
    | nil =>
      rw [← show token :: rest = others from split] at behind
      exact absurd behind (Nat.lt_irrefl _)
    | cons head taken =>
      obtain ⟨rfl, -⟩ := List.cons.inj split
      refine ⟨offer, token :: taken, split, fun offered isOffered => ?_⟩
      rcases welcome offered isOffered with
        ⟨phrase, more, spelled, holds, proper⟩ | ⟨phrase, op, operator, spelled, holds, ends⟩
      · have noNegation := not_isNegation_of_tokens argument spelled
        exact .inl ⟨phrase, more, spelled, ⟨holds.1, holds.2, noNegation⟩, proper⟩
      · have noNegation := not_isNegation_of_tokens argument spelled
        exact .inr ⟨phrase, op, operator, spelled, ⟨holds.1, holds.2, noNegation⟩, ends⟩

section Continuations

variable {bound least start : Nat} (below : TruthfulBelow bound) {rest : List Token}
  {left : Phrase} (holds : (Category.expression least).Holds left)

include below holds

private theorem operator_truthful (fits : rest.length < bound) {op : BinaryOp}
    (releases : left.Releases (.operator op)) (high : ¬ op.power.left < least) :
    Truthful (Category.expression least).Welcomes left.tokens (afterOperand least left)
      ((Symbol.binary op).at start :: rest) := by
  have whole {right : Phrase} (valid : (Category.expression op.power.right).Holds right) :
      (Category.expression least).Holds (.binary left op start right) :=
    binary_holds holds releases high valid
  have spelled (right : Phrase) : (Phrase.binary left op start right).tokens =
      left.tokens ++ [(Symbol.binary op).at start] ++ right.tokens := by
    simp [Phrase.tokens]
  apply Truthful.token fun later => if_neg high
  apply Truthful.sequence (expression_accounts_all op.power.right rest)
    (below.expression fits op.power.right)
  · intro right rest₁ valid ends split
    have behind := below.continuations (length_lt_of_split split (Nat.le_of_lt fits))
      (whole valid) ((Phrase.releases_iff_of_lastOperand rfl).mpr ends)
    rw [spelled right] at behind
    exact behind
  · exact expression_welcomes_last (.binary left op start) spelled (fun _ => whole)
      fun _ _ ends => (Phrase.releases_iff_of_lastOperand rfl).mpr ends

private theorem application_truthful {token : Token} (fits : (token :: rest).length ≤ bound)
    (releases : left.Releases .argument) (high : ¬ Power.application.left < least)
    (next : token.kind.continuation = .argument) :
    Truthful (Category.expression least).Welcomes left.tokens (afterOperand least left)
      (token :: rest) := by
  have whole {argument : Phrase} (valid : Category.argument.Holds argument) :
      (Category.expression least).Holds (.application left argument) :=
    application_holds holds releases high valid
  refine .choose (fun tokens =>
    (readExpression Power.application.right tokens).andThen fun argument rest₁ =>
      readContinuations least (.application left argument) rest₁) ?_ ?_
  · apply Truthful.sequence
      (argument_accounts (expression_accounts_all Power.application.right _) next)
      (argument_truthful below fits next)
    · intro argument rest₁ valid ends split
      exact below.continuations (length_lt_of_split split fits) (whole valid)
        ((Phrase.releases_iff_of_lastOperand rfl).mpr ends)
    · exact expression_welcomes_last (.application left) (fun _ => rfl) (fun _ => whole)
        fun _ _ ends => (Phrase.releases_iff_of_lastOperand rfl).mpr ends
  · simp only [afterOperand, next, if_neg high]

private theorem subscript_truthful (fits : rest.length < bound) (closed : left.Closed) :
    Truthful (Category.expression least).Welcomes left.tokens (afterOperand least left)
      (Symbol.leftBracket.at start :: rest) := by
  have spelled (index : Phrase) (closing : Nat) :
      (Phrase.subscript left start index closing).tokens =
        left.tokens ++ [Symbol.leftBracket.at start] ++ index.tokens ++
          [Symbol.rightBracket.at closing] := by
    simp [Phrase.tokens]
  have whole {index : Phrase} (valid : (Category.expression 0).Holds index) (closing : Nat) :
      (Category.expression least).Holds (.subscript left start index closing) :=
    subscript_holds holds closed valid closing
  apply Truthful.token fun later => rfl
  apply Truthful.sequence (expression_accounts_all 0 rest) (below.whole fits)
  · intro index rest₁ valid _ split₁
    apply Truthful.sequence (symbol_accounts .rightBracket rest₁)
      (symbol_truthful .rightBracket rest₁)
    · intro closing rest₂ _ _ split₂
      have fewer : rest₂.length < bound := by
        simp [split₁, split₂] at fits
        omega
      have behind := below.continuations fewer (whole valid closing)
        (Phrase.Closed.releases (by trivial) _)
      rw [spelled index closing] at behind
      exact behind
    · refine Category.welcomes_part fun closing _ => ?_
      have complete := Category.begins_of_holds (.expression least) _ (whole valid closing)
      exact (spelled index closing) ▸ complete
  · exact Category.welcomes_part fun index valid => subscript_begins holds closed valid

private theorem continuations_truthful {tokens : List Token} (fits : tokens.length ≤ bound)
    (releases : left.Releases (upcoming tokens)) :
    Truthful (Category.expression least).Welcomes left.tokens (readContinuations least left)
      tokens := by
  rw [funext (readContinuations_eq least left)]
  cases tokens with
  | nil => exact .given rfl
  | cons token rest =>
    change left.Releases token.kind.continuation at releases
    cases next : token.kind.continuation with
    | stop =>
      apply Truthful.given
      simp only [afterOperand, next]
      rfl
    | misplaced =>
      have refused : afterOperand least left (token :: rest) =
          .error ⟨.expected .continuation, token :: rest⟩ := by
        simp only [afterOperand, next]
      -- only a closed phrase ends before a misplaced token, so every operator may follow it
      rw [next] at releases
      refine .refuse refused ⟨.symbol (.binary .add), trivial, .add, rfl⟩ ?_
      rintro offered ⟨op, operator⟩
      exact welcomes_operator holds (Phrase.Closed.releases releases _) operator
    | operator op =>
      by_cases low : op.power.left < least
      · apply Truthful.given
        simp only [afterOperand, next, if_pos low]
        rfl
      · obtain ⟨lexeme, start⟩ := token
        cases lexeme_of_operator next
        exact operator_truthful below holds fits releases low
    | argument =>
      by_cases low : Power.application.left < least
      · apply Truthful.given
        simp only [afterOperand, next, if_pos low]
        rfl
      · rw [next] at releases
        exact application_truthful below holds fits releases low next
    | subscript =>
      obtain ⟨lexeme, start⟩ := token
      cases lexeme_of_subscript next
      exact subscript_truthful below holds fits releases

end Continuations

/-! Lists and bindings -/

private theorem separator_takes {item : Phrase} (grammatical : item.Grammatical) {token : Token}
    (offered : Expectation.itemSeparator.Offers token.lexeme) :
    Category.items.Takes item.tokens token := by
  obtain ⟨lexeme, start⟩ := token
  rcases offered with comma | brace
  · obtain rfl : lexeme = .symbol .comma := comma
    exact ⟨.more item start (.close 0), [Symbol.rightBrace.at 0], by simp [Items.tokens, Symbol.at],
      ⟨grammatical, trivial⟩, by simp⟩
  · obtain rfl : lexeme = .symbol .rightBrace := brace
    exact Category.items.begins_of_holds (.last item start) grammatical

private theorem afterItem_truthful {bound : Nat} (below : TruthfulBelow bound) {item : Phrase}
    (grammatical : item.Grammatical) {tokens : List Token} (fits : tokens.length ≤ bound) :
    Truthful Category.items.Takes item.tokens (afterItem item) tokens := by
  have offer : ∃ lexeme : Lexeme, lexeme.Proper ∧ Expectation.itemSeparator.Offers lexeme :=
    ⟨.symbol .comma, trivial, .inl rfl⟩
  have welcome (token : Token) (offered : Expectation.itemSeparator.Offers token.lexeme) :=
    separator_takes grammatical offered
  cases tokens with
  | nil => exact .refuse rfl offer welcome
  | cons token rest =>
    by_cases comma : token.lexeme = .symbol .comma
    · obtain ⟨lexeme, start⟩ := token
      cases comma
      apply Truthful.token (afterItem_comma item start)
      apply Truthful.last (below.items fits)
      refine Category.takes_within fun more valid => ?_
      have complete := Category.items.begins_of_holds (.more item start more) ⟨grammatical, valid⟩
      simpa [Items.tokens, Symbol.at] using complete
    · by_cases brace : token.lexeme = .symbol .rightBrace
      · exact .given ((if_neg comma).trans (if_pos brace))
      · exact .refuse ((if_neg comma).trans (if_neg brace)) offer welcome

private theorem items_truthful {bound : Nat} (below : TruthfulBelow bound) {tokens : List Token}
    (fits : tokens.length ≤ bound) : Truthful Category.items.Takes [] readItems tokens := by
  have item := (expression_truthful below fits 0).mono takes_of_welcomes
  cases tokens with
  | nil =>
    refine .refuse readItems_nil expression_offer fun token offered => ?_
    exact Category.Begins.within (term_takes offered) fun item holds => items_begins holds.1
  | cons token rest =>
    by_cases brace : token.lexeme = .symbol .rightBrace
    · exact .given ((readItems_cons token rest).trans (if_pos brace))
    · refine .choose (fun tokens => (readExpression 0 tokens).andThen afterItem) ?_
        ((readItems_cons token rest).trans (if_neg brace))
      apply Truthful.sequence (expression_accounts_all 0 _) item
      · intro item rest₁ valid _ split
        exact afterItem_truthful below valid.1 (Nat.le_of_lt (length_lt_of_split split fits))
      · exact Category.takes_within fun item holds => items_begins holds.1

private theorem afterValue_truthful {bound : Nat} (below : TruthfulBelow bound) (name : Name)
    (assign : Nat) {value : Phrase} (grammatical : value.Grammatical) {tokens : List Token}
    (fits : tokens.length ≤ bound) :
    Truthful Category.bindings.Takes (name.token :: Symbol.assign.at assign :: value.tokens)
      (afterValue name assign value) tokens := by
  cases tokens with
  | nil => exact .given rfl
  | cons token rest =>
    by_cases comma : token.lexeme = .symbol .comma
    · obtain ⟨lexeme, start⟩ := token
      cases comma
      apply Truthful.token (afterValue_comma name assign value start)
      apply Truthful.last (below.bindings fits)
      refine Category.takes_within fun more valid => ?_
      have complete := Category.bindings.begins_of_holds (.more name assign value start more)
        ⟨grammatical, valid⟩
      simpa [Bindings.tokens, Symbol.at] using complete
    · exact .given (if_neg comma)

private theorem bindings_truthful {bound : Nat} (below : TruthfulBelow bound) {tokens : List Token}
    (fits : tokens.length ≤ bound) : Truthful Category.bindings.Takes [] readBindings tokens := by
  rw [funext readBindings_eq]
  apply Truthful.sequence (name_accounts tokens) (name_truthful tokens)
  · intro name rest₁ _ _ split₁
    apply Truthful.sequence (symbol_accounts .assign rest₁) (symbol_truthful .assign rest₁)
    · intro assign rest₂ _ _ split₂
      have fewer : rest₂.length < bound := by
        simp [split₁, split₂] at fits
        omega
      apply Truthful.sequence (expression_accounts_all 0 rest₂) (below.whole fewer)
      · intro value rest₃ valid _ split₃
        exact afterValue_truthful below name assign valid.1
          (Nat.le_of_lt (length_lt_of_split split₃ (Nat.le_of_lt fewer)))
      · exact Category.takes_within fun value valid =>
          Category.bindings.begins_of_holds (.last name assign value) valid.1
    · exact Category.takes_within fun assign _ => bindings_begins_value name assign
  · exact Category.takes_within fun name _ => bindings_begins name

private theorem truthfulBelow (bound : Nat) : TruthfulBelow bound := by
  induction bound with
  | zero => constructor <;> intro tokens fewer <;> exact absurd fewer (Nat.not_lt_zero _)
  | succ bound below =>
    constructor <;> intro tokens fewer <;> have fits := Nat.le_of_lt_succ fewer
    · exact expression_truthful below fits
    · intro least left holds
      exact continuations_truthful below holds fits
    · exact items_truthful below fits
    · exact bindings_truthful below fits

/-- Where the parser expected something, that is the end behind a whole grammatical phrase, or
else something is on offer, and all that is on offer goes on with the tokens before to begin a
grammatical phrase. -/
theorem readProgram_truthful {tokens rest : List Token} {what : Expectation}
    (refused : readProgram tokens = .error ⟨.expected what, rest⟩) :
    ∃ taken, tokens = taken ++ rest ∧
      ((what = .endOfInput ∧ ∃ phrase : Phrase, phrase.Grammatical ∧ phrase.tokens = taken) ∨
        (∃ lexeme : Lexeme, lexeme.Proper ∧ what.Offers lexeme) ∧
          ∀ token : Token, what.Offers token.lexeme → ∃ (phrase : Phrase) (more : List Token),
            phrase.Grammatical ∧ phrase.tokens = taken ++ [token] ++ more ∧
              ∀ token ∈ more, token.lexeme.Proper) := by
  rw [readProgram_eq] at refused
  split at refused
  · rename_i stopped
    cases refused
    have truthful := (truthfulBelow (tokens.length + 1)).whole (Nat.lt_succ_self _)
    obtain ⟨offer, taken, split, welcome⟩ := truthful.stopped stopped
    refine ⟨taken, split, .inr ⟨offer, fun token offered => ?_⟩⟩
    obtain ⟨phrase, more, spelled, holds, proper⟩ := welcome token offered
    exact ⟨phrase, more, holds.1, spelled, proper⟩
  · cases refused
  · rename_i phrase token others read
    cases refused
    obtain ⟨taken, split, spelled, holds, -, -⟩ := (expression_accounts_all 0 tokens).read read
    exact ⟨taken, split, .inl ⟨rfl, phrase, holds.1, spelled⟩⟩

end Parser

end ClamSyntax
