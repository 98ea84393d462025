import ClamSyntax.Proofs.Parser.Account

namespace ClamSyntax

/-- The phrase stands for itself: it has no operand before its first token. -/
def Phrase.IsTerm : Phrase → Prop
  | .binary .. | .application .. | .subscript .. => False
  | _ => True

theorem Phrase.IsTerm.admits {phrase : Phrase} (isTerm : phrase.IsTerm) (least : Nat) :
    ∀ part ∈ phrase.leftSpine, part.Admits least := by
  intro part member
  cases phrase with
  | binary => cases isTerm
  | application => cases isTerm
  | subscript => cases isTerm
  | _ =>
    cases List.mem_singleton.mp member
    trivial

namespace Parser

@[simp] def Category.symbol (fixed : Symbol) : Category Nat where
  tokens start := [fixed.at start]
  Holds _ := True
  Ends _ _ := True

@[simp] def Category.name : Category Name where
  tokens name := [name.token]
  Holds _ := True
  Ends _ _ := True

@[simp] def Category.parameters : Category (List Name × Nat) where
  tokens more := more.1.map Name.token ++ [Symbol.arrow.at more.2]
  Holds _ := True
  Ends _ _ := True

@[simp] def Category.term : Category Phrase where
  tokens := Phrase.tokens
  Holds phrase := phrase.Grammatical ∧ phrase.IsTerm
  Ends := Phrase.Releases

@[simp] def Category.expression (least : Nat) : Category Phrase where
  tokens := Phrase.tokens
  Holds phrase := phrase.Grammatical ∧ ∀ part ∈ phrase.leftSpine, part.Admits least
  Ends phrase continuation := continuation.Stops least ∧ phrase.Releases continuation

@[simp] def Category.items : Category Items where
  tokens := Items.tokens
  Holds := Items.Grammatical
  Ends _ _ := True

@[simp] def Category.bindings : Category Bindings where
  tokens := Bindings.tokens
  Holds := Bindings.Grammatical
  Ends _ _ := True

@[simp] theorem symbol_proper (fixed : Symbol) (start : Nat) :
    (fixed.at start).lexeme.Proper := trivial

/-- An operand for phrases that are completed. -/
def filler : Name := ⟨"x", 0⟩

@[simp] theorem filler_proper : filler.token.lexeme.Proper := by
  have free : Symbol.keywords.all (fun keyword => keyword.spelling != "x") = true := rfl
  refine ⟨⟨'x', rfl, rfl⟩, List.forall_mem_singleton.mpr rfl, fun keyword member => ?_⟩
  exact bne_iff_ne.mp (List.all_eq_true.mp free keyword member)

theorem Category.begins_of_holds (category : Category α) (value : α)
    (holds : category.Holds value) : category.Begins (category.tokens value) :=
  ⟨value, [], (List.append_nil _).symm, holds, nofun⟩

/-! Grammatical phrases that begin with the parts read so far, and how each of them goes on -/

section Beginnings

variable {start : Nat}

private theorem symbol_begins (fixed : Symbol) : (Category.symbol fixed).Begins [] :=
  ⟨0, [fixed.at 0], rfl, trivial, by simp⟩

private theorem name_begins :
    Category.name.Begins [] := ⟨filler, [filler.token], rfl, trivial, by simp⟩

private theorem parameters_begins : Category.parameters.Begins [] :=
  ⟨([], 0), [Symbol.arrow.at 0], rfl, trivial, by simp⟩

theorem term_begins : Category.term.Begins [] :=
  ⟨.name filler, [filler.token], rfl, ⟨trivial, trivial⟩, by simp⟩

theorem group_begins {body : Phrase} (holds : body.Grammatical) :
    Category.term.Begins (Symbol.leftParen.at start :: body.tokens) :=
  ⟨.group start body 0, [Symbol.rightParen.at 0], rfl, ⟨holds, trivial⟩, by simp⟩

theorem letIn_begins {bound : Bindings} (valid : bound.Grammatical) :
    Category.term.Begins (Symbol.kwLet.at start :: bound.tokens) :=
  ⟨.letIn start bound 0 (.name filler), [Symbol.kwIn.at 0, filler.token],
    by simp [Phrase.tokens, Symbol.at], ⟨⟨valid, trivial⟩, trivial⟩, by simp⟩

theorem letIn_begins_body {bound : Bindings} (valid : bound.Grammatical) (inAt : Nat) :
    Category.term.Begins (Symbol.kwLet.at start :: (bound.tokens ++ [Symbol.kwIn.at inAt])) :=
  ⟨.letIn start bound inAt (.name filler), [filler.token],
    by simp [Phrase.tokens, Symbol.at], ⟨⟨valid, trivial⟩, trivial⟩, by simp⟩

theorem function_begins (first : Name) :
    Category.term.Begins [Symbol.kwFun.at start, first.token] :=
  ⟨.function start first [] 0 (.name filler), [Symbol.arrow.at 0, filler.token],
    by simp [Phrase.tokens, Symbol.at], ⟨trivial, trivial⟩, by simp⟩

theorem function_begins_body (first : Name) (more : List Name × Nat) :
    Category.term.Begins
      (Symbol.kwFun.at start :: first.token :: Category.parameters.tokens more) :=
  ⟨.function start first more.1 more.2 (.name filler), [filler.token],
    by simp [Phrase.tokens, Symbol.at], ⟨trivial, trivial⟩, by simp⟩

theorem conditional_begins {condition : Phrase} (first : condition.Grammatical) :
    Category.term.Begins (Symbol.kwIf.at start :: condition.tokens) :=
  ⟨.conditional start condition 0 (.name filler) 0 (.name filler),
    [Symbol.kwThen.at 0, filler.token, Symbol.kwElse.at 0, filler.token],
    by simp [Phrase.tokens, Symbol.at], ⟨⟨first, trivial, trivial⟩, trivial⟩, by simp⟩

theorem conditional_begins_yes {condition : Phrase} (first : condition.Grammatical)
    (thenAt : Nat) :
    Category.term.Begins
      (Symbol.kwIf.at start :: (condition.tokens ++ [Symbol.kwThen.at thenAt])) :=
  ⟨.conditional start condition thenAt (.name filler) 0 (.name filler),
    [filler.token, Symbol.kwElse.at 0, filler.token],
    by simp [Phrase.tokens, Symbol.at, Name.token], ⟨⟨first, trivial, trivial⟩, trivial⟩, by simp⟩

theorem conditional_begins_else {condition yes : Phrase} (first : condition.Grammatical)
    (second : yes.Grammatical) (thenAt : Nat) :
    Category.term.Begins
      ([Symbol.kwIf.at start] ++ condition.tokens ++ [Symbol.kwThen.at thenAt] ++ yes.tokens) :=
  ⟨.conditional start condition thenAt yes 0 (.name filler),
    [Symbol.kwElse.at 0, filler.token],
    by simp [Phrase.tokens, Symbol.at], ⟨⟨first, second, trivial⟩, trivial⟩, by simp⟩

theorem conditional_begins_no {condition yes : Phrase} (first : condition.Grammatical)
    (second : yes.Grammatical) (thenAt elseAt : Nat) :
    Category.term.Begins
      ([Symbol.kwIf.at start] ++ condition.tokens ++ [Symbol.kwThen.at thenAt] ++ yes.tokens ++
        [Symbol.kwElse.at elseAt]) :=
  ⟨.conditional start condition thenAt yes elseAt (.name filler), [filler.token],
    by simp [Phrase.tokens, Symbol.at], ⟨⟨first, second, trivial⟩, trivial⟩, by simp⟩

theorem items_begins {item : Phrase} (grammatical : item.Grammatical) :
    Category.items.Begins item.tokens :=
  ⟨.last item 0, [Symbol.rightBrace.at 0], rfl, grammatical, by simp⟩

theorem bindings_begins (name : Name) : Category.bindings.Begins [name.token] :=
  ⟨.last name 0 (.name filler), [Symbol.assign.at 0, filler.token],
    by simp [Bindings.tokens, Phrase.tokens], trivial, by simp⟩

theorem bindings_begins_value (name : Name) (assign : Nat) :
    Category.bindings.Begins [name.token, Symbol.assign.at assign] :=
  ⟨.last name assign (.name filler), [filler.token],
    by simp [Bindings.tokens, Phrase.tokens, Symbol.at], trivial, by simp⟩

end Beginnings

theorem symbol_accounts (fixed : Symbol) (tokens : List Token) :
    Accounts (.symbol fixed) [] (readSymbol fixed) tokens := by
  have begins := symbol_begins fixed
  cases tokens with
  | nil =>
    exact Accounts.refuse begins (forall_head_none (readSymbol_nil fixed))
  | cons token rest =>
    by_cases found : token.lexeme = .symbol fixed
    · obtain ⟨lexeme, start⟩ := token
      cases found
      exact .token (readSymbol_at fixed start) (.give start rfl trivial trivial fun _ _ => rfl)
    · apply Accounts.refuse begins
      intro later head
      obtain ⟨more, rfl⟩ := List.head?_eq_some_iff.mp head
      rw [readSymbol_cons, if_neg found]

theorem name_accounts (tokens : List Token) : Accounts .name [] readName tokens := by
  cases tokens with
  | nil =>
    exact Accounts.refuse name_begins (forall_head_none readName_nil)
  | cons token rest =>
    obtain ⟨lexeme, start⟩ := token
    cases lexeme with
    | identifier text =>
      exact .token (fun later => readName_cons _ later)
        (.give ⟨text, start⟩ rfl trivial trivial fun _ _ => rfl)
    | _ =>
      exact Accounts.refuse name_begins (forall_head_some (readName_cons _))

theorem parameters_accounts (tokens : List Token) :
    Accounts .parameters [] readParameters tokens := by
  induction tokens with
  | nil =>
    exact Accounts.refuse parameters_begins (forall_head_none readParameters_nil)
  | cons token rest ih =>
    obtain ⟨lexeme, start⟩ := token
    have refused (same : ∀ later, readParameters (⟨lexeme, start⟩ :: later) =
        .error ⟨.expected (.symbol .arrow), ⟨lexeme, start⟩ :: later⟩) :
        Accounts .parameters [] readParameters (⟨lexeme, start⟩ :: rest) :=
      .refuse parameters_begins (forall_head_some same)
    cases lexeme with
    | symbol fixed =>
      by_cases arrow : fixed = .arrow
      · subst arrow
        exact .token (fun later => readParameters_cons _ later)
          (.give ([], start) rfl trivial trivial fun _ _ => rfl)
      · apply refused
        intro later
        rw [readParameters_cons]
        cases fixed <;> first | rfl | exact absurd rfl arrow
    | identifier text =>
      apply Accounts.token (fun later => readParameters_cons _ later)
      apply Accounts.sequence ih
      · intro more rest₁ _ _ _
        exact .give (⟨text, start⟩ :: more.1, more.2) rfl trivial trivial fun _ _ => rfl
      · intro more _
        exact Category.parameters.begins_of_holds (⟨text, start⟩ :: more.1, more.2) trivial
    | _ => exact refused fun later => readParameters_cons _ later

/-- The accounts of the readers that call one another, at fewer tokens than the bound. -/
structure AccountsBelow (bound : Nat) : Prop where
  expression : ∀ {tokens}, tokens.length < bound → ∀ least,
    Accounts (.expression least) [] (readExpression least) tokens
  continuations : ∀ {tokens}, tokens.length < bound → ∀ {least left},
    (Category.expression least).Holds left → left.Releases (upcoming tokens) →
    Accounts (.expression least) left.tokens (readContinuations least left) tokens
  items : ∀ {tokens}, tokens.length < bound → Accounts .items [] readItems tokens
  bindings : ∀ {tokens}, tokens.length < bound → Accounts .bindings [] readBindings tokens

private theorem literal_accounts {token : Token} {value : Value} (rest : List Token)
    (opens : token.lexeme.opening = .literal (.ok value))
    (denotes : Literal.value? token.lexeme = some (.ok value)) :
    Accounts .term [] readTerm (token :: rest) := by
  have same (later : List Token) :
      readTerm (token :: later) = .ok (.literal token value, later) := by
    rw [readTerm_cons]
    simp only [afterOpening, opens]
  exact .token same (.give (.literal token value) rfl ⟨denotes, trivial⟩
    (Phrase.Closed.releases (by trivial) _) fun _ _ => rfl)

private theorem name_term_accounts {text : String} {start : Nat} (rest : List Token) :
    Accounts .term [] readTerm (⟨.identifier text, start⟩ :: rest) := by
  apply Accounts.token (fun later => readTerm_cons _ later)
  exact .give (.name ⟨text, start⟩) rfl ⟨trivial, trivial⟩
    (Phrase.Closed.releases (by trivial) _) fun _ _ => rfl

private theorem list_accounts {start : Nat} {rest : List Token}
    (items : Accounts .items [] readItems rest) :
    Accounts .term [] readTerm (Symbol.leftBrace.at start :: rest) := by
  apply Accounts.token (fun later => readTerm_cons _ later)
  apply Accounts.last items
  · intro items
    rfl
  · intro items holds
    exact ⟨holds, trivial⟩
  · intro items continuation _
    exact Phrase.Closed.releases (by trivial) continuation

private theorem print_accounts {start : Nat} {rest : List Token}
    (expression : Accounts (.expression 0) [] (readExpression 0) rest) :
    Accounts .term [] readTerm (Symbol.kwPrint.at start :: rest) := by
  apply Accounts.token (fun later => readTerm_cons _ later)
  apply Accounts.last expression
  · intro operand
    rfl
  · intro operand holds
    exact ⟨holds.1, trivial⟩
  · intro operand continuation ends
    exact (Phrase.releases_iff_of_lastOperand rfl).mpr ends

private theorem unary_accounts (op : UnaryOp) {start : Nat} {rest : List Token}
    (expression : Accounts (.expression op.power) [] (readExpression op.power) rest) :
    Accounts .term [] readTerm (op.symbol.at start :: rest) := by
  have opens : (op.symbol.at start).lexeme.opening = .unary op := by cases op <;> rfl
  have same (later : List Token) : readTerm (op.symbol.at start :: later) =
      (readExpression op.power later).andThen fun operand rest₁ =>
        .ok (.unary op start operand, rest₁) := by
    rw [readTerm_cons]
    simp only [afterOpening, opens]
    rfl
  apply Accounts.token same
  apply Accounts.last expression
  · intro operand
    rfl
  · intro operand holds
    exact ⟨holds, trivial⟩
  · intro operand continuation ends
    exact (Phrase.releases_iff_of_lastOperand rfl).mpr ends

private theorem group_accounts {start : Nat} {rest : List Token}
    (expression : Accounts (.expression 0) [] (readExpression 0) rest) :
    Accounts .term [] readTerm (Symbol.leftParen.at start :: rest) := by
  apply Accounts.token (fun later => readTerm_cons _ later)
  apply Accounts.sequence expression
  · intro body rest₁ holds _ _
    apply Accounts.last (symbol_accounts .rightParen rest₁)
    · intro closing
      rfl
    · intro closing _
      exact ⟨holds.1, trivial⟩
    · intro closing continuation _
      exact Phrase.Closed.releases (by trivial) continuation
  · intro body holds
    exact group_begins holds.1

private theorem letIn_accounts {start : Nat} {rest : List Token}
    (bindings : Accounts .bindings [] readBindings rest)
    (expression : ∀ {others}, others <:+ rest →
      Accounts (.expression 0) [] (readExpression 0) others) :
    Accounts .term [] readTerm (Symbol.kwLet.at start :: rest) := by
  apply Accounts.token (fun later => readTerm_cons _ later)
  apply Accounts.sequence bindings
  · intro bound rest₁ valid _ split₁
    apply Accounts.sequence (symbol_accounts .kwIn rest₁)
    · intro inAt rest₂ _ _ split₂
      have behind : rest₂ <:+ rest := .trans ⟨_, split₂.symm⟩ ⟨_, split₁.symm⟩
      apply Accounts.last (expression behind)
      · intro body
        simp [Phrase.tokens, Symbol.at]
      · intro body holds
        exact ⟨⟨valid, holds.1⟩, trivial⟩
      · intro body continuation ends
        exact (Phrase.releases_iff_of_lastOperand rfl).mpr ends
    · intro inAt _
      exact letIn_begins_body valid inAt
  · intro bound valid
    exact letIn_begins valid

private theorem function_accounts {start : Nat} {rest : List Token}
    (expression : ∀ {others}, others <:+ rest →
      Accounts (.expression 0) [] (readExpression 0) others) :
    Accounts .term [] readTerm (Symbol.kwFun.at start :: rest) := by
  apply Accounts.token (fun later => readTerm_cons _ later)
  apply Accounts.sequence (name_accounts rest)
  · intro first rest₁ _ _ split₁
    apply Accounts.sequence (parameters_accounts rest₁)
    · intro more rest₂ _ _ split₂
      have behind : rest₂ <:+ rest := .trans ⟨_, split₂.symm⟩ ⟨_, split₁.symm⟩
      apply Accounts.last (expression behind)
      · intro body
        simp [Phrase.tokens, Symbol.at]
      · intro body holds
        exact ⟨holds.1, trivial⟩
      · intro body continuation ends
        exact (Phrase.releases_iff_of_lastOperand rfl).mpr ends
    · intro more _
      exact function_begins_body first more
  · intro first _
    exact function_begins first

private theorem conditional_accounts {start : Nat} {rest : List Token}
    (expression : ∀ {others}, others <:+ rest →
      Accounts (.expression 0) [] (readExpression 0) others) :
    Accounts .term [] readTerm (Symbol.kwIf.at start :: rest) := by
  apply Accounts.token (fun later => readTerm_cons _ later)
  apply Accounts.sequence (expression (List.suffix_refl _))
  · intro condition rest₁ first _ split₁
    apply Accounts.sequence (symbol_accounts .kwThen rest₁)
    · intro thenAt rest₂ _ _ split₂
      have behind₂ : rest₂ <:+ rest := .trans ⟨_, split₂.symm⟩ ⟨_, split₁.symm⟩
      apply Accounts.sequence (expression behind₂)
      · intro yes rest₃ second _ split₃
        apply Accounts.sequence (symbol_accounts .kwElse rest₃)
        · intro elseAt rest₄ _ _ split₄
          have behind₄ : rest₄ <:+ rest :=
            .trans (.trans ⟨_, split₄.symm⟩ ⟨_, split₃.symm⟩) behind₂
          apply Accounts.last (expression behind₄)
          · intro no
            simp [Phrase.tokens, Symbol.at]
          · intro no third
            exact ⟨⟨first.1, second.1, third.1⟩, trivial⟩
          · intro no continuation ends
            exact (Phrase.releases_iff_of_lastOperand rfl).mpr ends
        · intro elseAt _
          exact conditional_begins_no first.1 second.1 thenAt elseAt
      · intro yes second
        exact conditional_begins_else first.1 second.1 thenAt
    · intro thenAt _
      exact conditional_begins_yes first.1 thenAt
  · intro condition first
    exact conditional_begins first.1

private theorem term_refuses {token : Token} (rest : List Token)
    (same : ∀ later, readTerm (token :: later) = .error ⟨.expected .expression, token :: later⟩) :
    Accounts .term [] readTerm (token :: rest) :=
  .refuse term_begins (forall_head_some same)

theorem term_accounts {bound : Nat} (below : AccountsBelow bound) {tokens : List Token}
    (fits : tokens.length ≤ bound) : Accounts .term [] readTerm tokens := by
  cases tokens with
  | nil =>
    exact Accounts.refuse term_begins (forall_head_none readTerm_nil)
  | cons token rest =>
    have items := below.items fits
    have bindings := below.bindings fits
    have expression (least : Nat) {others : List Token} (behind : others <:+ rest) :=
      below.expression (Nat.lt_of_le_of_lt behind.length_le fits) least
    have same := List.suffix_refl rest
    obtain ⟨lexeme, start⟩ := token
    cases lexeme with
    | integer digits => exact literal_accounts rest rfl rfl
    | decimal whole fraction => exact literal_accounts rest rfl rfl
    | identifier text => exact name_term_accounts rest
    | quoted body =>
      cases escapes : Literal.unescape body with
      | ok text =>
        have denotes : Literal.value? (.quoted body) = some (.ok (.str (String.ofList text))) := by
          rw [Literal.value?, escapes]
          rfl
        exact literal_accounts rest (Phrase.opening_of_value denotes) denotes
      | error fault =>
        have denotes : Literal.value? (.quoted body) = some (.error fault) := by
          rw [Literal.value?, escapes]
          rfl
        refine Accounts.stop (.badEscape fault) term_begins ?_ ?_
        · intro other same
          cases same
          exact ⟨body, start, rfl, escapes⟩
        · refine forall_head_some fun more => ?_
          rw [readTerm_cons]
          simp only [afterOpening, Phrase.opening_of_value denotes]
    | invalid text => exact term_refuses rest fun later => readTerm_cons _ later
    | endOfInput => exact term_refuses rest fun later => readTerm_cons _ later
    | symbol fixed =>
      cases fixed with
      | kwTrue => exact literal_accounts rest rfl rfl
      | kwFalse => exact literal_accounts rest rfl rfl
      | kwUnit => exact literal_accounts rest rfl rfl
      | leftBrace => exact list_accounts items
      | kwLet => exact letIn_accounts bindings (expression 0)
      | kwFun => exact function_accounts (expression 0)
      | kwPrint => exact print_accounts (expression 0 same)
      | kwIf => exact conditional_accounts (expression 0)
      | leftParen => exact group_accounts (expression 0 same)
      | kwNot => exact unary_accounts .not (expression _ same)
      | binary op =>
        cases op with
        | sub => exact unary_accounts .negate (expression _ same)
        | _ => exact term_refuses rest fun later => readTerm_cons _ later
      | _ => exact term_refuses rest fun later => readTerm_cons _ later

theorem length_lt_of_split {phrase : Phrase} {tokens rest : List Token} {bound : Nat}
    (split : tokens = phrase.tokens ++ rest) (fits : tokens.length ≤ bound) :
    rest.length < bound := by
  have some_token := List.length_pos_iff.mpr phrase.tokens_ne_nil
  rw [split, List.length_append] at fits
  omega

theorem expression_accounts {bound : Nat} (below : AccountsBelow bound) {tokens : List Token}
    (fits : tokens.length ≤ bound) (least : Nat) :
    Accounts (.expression least) [] (readExpression least) tokens := by
  rw [funext (readExpression_eq least)]
  apply Accounts.sequence (term_accounts below fits)
  · intro left rest holds ends split
    exact below.continuations (length_lt_of_split split fits)
      ⟨holds.1, holds.2.admits least⟩ ends
  · intro left holds
    exact Category.begins_of_holds (.expression least) left ⟨holds.1, holds.2.admits least⟩

/-- An argument does not begin with a minus sign. -/
@[simp] def Category.argument : Category Phrase where
  tokens := Phrase.tokens
  Holds phrase := phrase.Grammatical ∧
    (∀ part ∈ phrase.leftSpine, part.Admits Power.application.right) ∧ ¬ phrase.IsNegation
  Ends phrase continuation := continuation.Stops Power.application.right ∧
    phrase.Releases continuation

private theorem not_isNegation_of_argument {phrase : Phrase}
    (argument : phrase.first.kind.continuation = .argument) : ¬ phrase.IsNegation := by
  intro negation
  cases phrase with
  | unary op =>
    cases op with
    | not => cases negation
    | negate => cases argument
  | _ => cases negation

theorem not_isNegation_of_tokens {token : Token} {phrase : Phrase} {more : List Token}
    (argument : token.kind.continuation = .argument) (spelled : phrase.tokens = token :: more) :
    ¬ phrase.IsNegation := by
  obtain ⟨others, same⟩ := phrase.exists_tokens_eq_cons
  obtain ⟨rfl, -⟩ := List.cons.inj (same.symm.trans spelled)
  exact not_isNegation_of_argument argument

theorem argument_accounts {token : Token} {rest : List Token}
    (expression : Accounts (.expression Power.application.right) []
      (readExpression Power.application.right) (token :: rest))
    (argument : token.kind.continuation = .argument) :
    Accounts .argument [] (readExpression Power.application.right) (token :: rest) := by
  constructor
  · intro phrase behind found
    obtain ⟨taken, split, spelled, holds, ends, again⟩ := expression.read found
    obtain ⟨others, same⟩ := phrase.exists_tokens_eq_cons
    have first : ∃ more, phrase.tokens = token :: more := by
      cases taken with
      | nil => cases same.symm.trans spelled
      | cons head more =>
        obtain ⟨rfl, -⟩ := List.cons.inj split
        exact ⟨more, spelled⟩
    obtain ⟨more, first⟩ := first
    have noNegation := not_isNegation_of_tokens argument first
    exact ⟨taken, split, spelled, ⟨holds.1, holds.2, noNegation⟩, ends, again⟩
  · intro stop found
    obtain ⟨taken, split, ⟨phrase, more, spelled, holds, proper⟩, explained, again⟩ :=
      expression.stopped found
    refine ⟨taken, split, ?_, explained, again⟩
    cases taken with
    | nil =>
      have isTerm : (Phrase.name filler).IsTerm := trivial
      exact ⟨.name filler, [filler.token], rfl, ⟨trivial, isTerm.admits _, nofun⟩,
        by simp⟩
    | cons head taken =>
      obtain ⟨rfl, -⟩ := List.cons.inj split
      have noNegation := not_isNegation_of_tokens argument spelled
      exact ⟨phrase, more, spelled, ⟨holds.1, holds.2, noNegation⟩, proper⟩

theorem lexeme_of_operator {lexeme : Lexeme} {op : BinaryOp}
    (operator : lexeme.kind.continuation = .operator op) : lexeme = .symbol (.binary op) := by
  cases lexeme with
  | symbol fixed =>
    cases fixed with
    | binary other => cases operator; rfl
    | _ => cases operator
  | _ => cases operator

theorem lexeme_of_subscript {lexeme : Lexeme} (subscript : lexeme.kind.continuation = .subscript) :
    lexeme = .symbol .leftBracket := by
  cases lexeme with
  | symbol fixed =>
    cases fixed with
    | leftBracket => rfl
    | _ => cases subscript
  | _ => cases subscript

section Operands

variable {least place : Nat} {left : Phrase} (holds : (Category.expression least).Holds left)

include holds

theorem binary_holds {op : BinaryOp} {right : Phrase} (releases : left.Releases (.operator op))
    (high : ¬ op.power.left < least) (valid : (Category.expression op.power.right).Holds right) :
    (Category.expression least).Holds (.binary left op place right) :=
  ⟨⟨holds.1, valid.1, releases, valid.2⟩,
    List.forall_mem_cons.mpr ⟨Nat.not_lt.mp high, holds.2⟩⟩

theorem application_holds {argument : Phrase} (releases : left.Releases .argument)
    (high : ¬ Power.application.left < least) (valid : Category.argument.Holds argument) :
    (Category.expression least).Holds (.application left argument) :=
  ⟨⟨holds.1, valid.1, releases, valid.2⟩,
    List.forall_mem_cons.mpr ⟨Nat.not_lt.mp high, holds.2⟩⟩

theorem subscript_holds {index : Phrase} (closed : left.Closed)
    (valid : (Category.expression 0).Holds index) (closing : Nat) :
    (Category.expression least).Holds (.subscript left place index closing) :=
  ⟨⟨holds.1, valid.1, closed⟩, List.forall_mem_cons.mpr ⟨trivial, holds.2⟩⟩

theorem subscript_begins {index : Phrase} (closed : left.Closed)
    (valid : (Category.expression 0).Holds index) :
    (Category.expression least).Begins
      (left.tokens ++ [Symbol.leftBracket.at place] ++ index.tokens) :=
  ⟨.subscript left place index 0, [Symbol.rightBracket.at 0], by simp [Phrase.tokens],
    subscript_holds holds closed valid 0, by simp⟩

end Operands

private theorem operator_accounts {bound least start : Nat} (below : AccountsBelow bound)
    {rest : List Token} (fits : rest.length < bound) {left : Phrase} {op : BinaryOp}
    (holds : (Category.expression least).Holds left) (releases : left.Releases (.operator op))
    (high : ¬ op.power.left < least) :
    Accounts (.expression least) left.tokens (afterOperand least left)
      ((Symbol.binary op).at start :: rest) := by
  have whole {right : Phrase} (valid : (Category.expression op.power.right).Holds right) :
      (Category.expression least).Holds (.binary left op start right) :=
    binary_holds holds releases high valid
  have spelled (right : Phrase) : left.tokens ++ [(Symbol.binary op).at start] ++ right.tokens =
      (Phrase.binary left op start right).tokens := by
    simp [Phrase.tokens]
  apply Accounts.token fun later => if_neg high
  apply Accounts.sequence (below.expression fits op.power.right)
  · intro right rest₁ valid ends split
    have shorter : rest₁.length < bound := by
      simp [split] at fits
      omega
    have account := below.continuations shorter (whole valid)
      ((Phrase.releases_iff_of_lastOperand rfl).mpr ends)
    rw [← spelled right] at account
    exact account
  · intro right valid
    have complete := Category.begins_of_holds (.expression least) _ (whole valid)
    exact (spelled right) ▸ complete

private theorem application_accounts {bound least : Nat} (below : AccountsBelow bound)
    {token : Token}
    {rest : List Token} (fits : (token :: rest).length ≤ bound) {left : Phrase}
    (holds : (Category.expression least).Holds left) (releases : left.Releases .argument)
    (high : ¬ Power.application.left < least) (next : token.kind.continuation = .argument) :
    Accounts (.expression least) left.tokens (afterOperand least left) (token :: rest) := by
  have whole {argument : Phrase} (valid : Category.argument.Holds argument) :
      (Category.expression least).Holds (.application left argument) :=
    application_holds holds releases high valid
  have expression := expression_accounts below fits Power.application.right
  refine Accounts.choose (fun tokens =>
    (readExpression Power.application.right tokens).andThen fun argument rest₁ =>
      readContinuations least (.application left argument) rest₁) ?_ ?_
  · apply Accounts.sequence (argument_accounts expression next)
    · intro argument rest₁ valid ends split
      exact below.continuations (length_lt_of_split split fits) (whole valid)
        ((Phrase.releases_iff_of_lastOperand rfl).mpr ends)
    · intro argument valid
      exact Category.begins_of_holds (.expression least) _ (whole valid)
  · refine forall_head_some fun more => ?_
    simp only [afterOperand, next, if_neg high]

private theorem subscript_accounts {bound least start : Nat} (below : AccountsBelow bound)
    {rest : List Token} (fits : rest.length < bound) {left : Phrase}
    (holds : (Category.expression least).Holds left) (closed : left.Closed) :
    Accounts (.expression least) left.tokens (afterOperand least left)
      (Symbol.leftBracket.at start :: rest) := by
  have whole {index : Phrase} (valid : (Category.expression 0).Holds index) (closing : Nat) :
      (Category.expression least).Holds (.subscript left start index closing) :=
    subscript_holds holds closed valid closing
  have spelled (index : Phrase) (closing : Nat) :
      left.tokens ++ [Symbol.leftBracket.at start] ++ index.tokens ++
        [Symbol.rightBracket.at closing] =
      (Phrase.subscript left start index closing).tokens := by
    simp [Phrase.tokens]
  apply Accounts.token fun later => rfl
  apply Accounts.sequence (below.expression fits 0)
  · intro index rest₁ valid _ split₁
    apply Accounts.sequence (symbol_accounts .rightBracket rest₁)
    · intro closing rest₂ _ _ split₂
      have shorter : rest₂.length < bound := by
        simp [split₁, split₂] at fits
        omega
      have account := below.continuations shorter (whole valid closing)
        (Phrase.Closed.releases (by trivial) _)
      rw [← spelled index closing] at account
      exact account
    · intro closing _
      have complete := Category.begins_of_holds (.expression least) _ (whole valid closing)
      exact (spelled index closing) ▸ complete
  · intro index valid
    exact subscript_begins holds closed valid

private theorem continuations_accounts {bound : Nat} (below : AccountsBelow bound)
    {tokens : List Token}
    (fits : tokens.length ≤ bound) {least : Nat} {left : Phrase}
    (holds : (Category.expression least).Holds left) (releases : left.Releases (upcoming tokens)) :
    Accounts (.expression least) left.tokens (readContinuations least left) tokens := by
  rw [funext (readContinuations_eq least left)]
  cases tokens with
  | nil =>
    exact .give left rfl holds ⟨trivial, trivial⟩ (forall_head_none rfl)
  | cons token rest =>
    have given (stops : token.kind.continuation.Stops least)
        (same : ∀ later, afterOperand least left (token :: later) = .ok (left, token :: later)) :
        Accounts (.expression least) left.tokens (afterOperand least left) (token :: rest) :=
      .give left rfl holds ⟨stops, releases⟩ (forall_head_some same)
    change left.Releases token.kind.continuation at releases
    cases next : token.kind.continuation with
    | stop =>
      apply given (by rw [next]; trivial)
      intro later
      simp only [afterOperand, next]
    | misplaced =>
      apply Accounts.refuse (Category.begins_of_holds (.expression least) left holds)
      refine forall_head_some fun more => ?_
      simp only [afterOperand, next]
      rfl
    | operator op =>
      by_cases low : op.power.left < least
      · apply given (by rw [next]; exact low)
        intro later
        simp only [afterOperand, next, if_pos low]
      · obtain ⟨lexeme, start⟩ := token
        cases lexeme_of_operator next
        exact operator_accounts below fits holds releases low
    | argument =>
      by_cases low : Power.application.left < least
      · apply given (by rw [next]; exact low)
        intro later
        simp only [afterOperand, next, if_pos low]
      · rw [next] at releases
        exact application_accounts below fits holds releases low next
    | subscript =>
      obtain ⟨lexeme, start⟩ := token
      cases lexeme_of_subscript next
      exact subscript_accounts below fits holds releases

private theorem afterItem_accounts {bound : Nat} (below : AccountsBelow bound) {item : Phrase}
    (grammatical : item.Grammatical) {tokens : List Token} (fits : tokens.length ≤ bound) :
    Accounts .items item.tokens (afterItem item) tokens := by
  have begins := items_begins grammatical
  cases tokens with
  | nil =>
    exact Accounts.refuse begins (forall_head_none rfl)
  | cons token rest =>
    by_cases comma : token.lexeme = .symbol .comma
    · obtain ⟨lexeme, start⟩ := token
      cases comma
      apply Accounts.token (afterItem_comma item start)
      apply Accounts.last (below.items fits)
      · intro more
        simp [Items.tokens, Symbol.at]
      · intro more valid
        exact ⟨grammatical, valid⟩
      · intro more continuation _
        trivial
    · by_cases brace : token.lexeme = .symbol .rightBrace
      · obtain ⟨lexeme, start⟩ := token
        cases brace
        exact Accounts.token (fun later => rfl)
          (.give (.last item start) rfl grammatical trivial fun _ _ => rfl)
      · exact Accounts.refuse begins
          (forall_head_some fun more => (if_neg comma).trans (if_neg brace))

private theorem items_accounts {bound : Nat} (below : AccountsBelow bound) {tokens : List Token}
    (fits : tokens.length ≤ bound) : Accounts .items [] readItems tokens := by
  cases tokens with
  | nil =>
    apply Accounts.refuse
    · exact ⟨.close 0, [Symbol.rightBrace.at 0], rfl, trivial, by simp⟩
    · exact forall_head_none readItems_nil
  | cons token rest =>
    by_cases brace : token.lexeme = .symbol .rightBrace
    · obtain ⟨lexeme, start⟩ := token
      cases brace
      exact Accounts.token (fun later => (readItems_cons _ later).trans (if_pos rfl))
        (.give (.close start) rfl trivial trivial fun _ _ => rfl)
    · refine Accounts.choose (fun tokens => (readExpression 0 tokens).andThen afterItem) ?_ ?_
      · apply Accounts.sequence (expression_accounts below fits 0)
        · intro item rest₁ valid _ split
          apply afterItem_accounts below valid.1
          simp [split] at fits
          omega
        · intro item valid
          exact items_begins valid.1
      · refine forall_head_some fun more => ?_
        rw [readItems_cons, if_neg brace]

private theorem afterValue_accounts {bound : Nat} (below : AccountsBelow bound) (name : Name)
    (assign : Nat) {value : Phrase} (grammatical : value.Grammatical) {tokens : List Token}
    (fits : tokens.length ≤ bound) :
    Accounts .bindings (name.token :: Symbol.assign.at assign :: value.tokens)
      (afterValue name assign value) tokens := by
  cases tokens with
  | nil =>
    exact .give (.last name assign value) rfl grammatical trivial (forall_head_none rfl)
  | cons token rest =>
    by_cases comma : token.lexeme = .symbol .comma
    · obtain ⟨lexeme, start⟩ := token
      cases comma
      apply Accounts.token (afterValue_comma name assign value start)
      apply Accounts.last (below.bindings fits)
      · intro more
        simp [Bindings.tokens, Symbol.at]
      · intro more valid
        exact ⟨grammatical, valid⟩
      · intro more continuation _
        trivial
    · exact .give (.last name assign value) rfl grammatical trivial
        (forall_head_some fun more => if_neg comma)

private theorem bindings_accounts {bound : Nat} (below : AccountsBelow bound) {tokens : List Token}
    (fits : tokens.length ≤ bound) : Accounts .bindings [] readBindings tokens := by
  rw [funext readBindings_eq]
  apply Accounts.sequence (name_accounts tokens)
  · intro name rest₁ _ _ split₁
    apply Accounts.sequence (symbol_accounts .assign rest₁)
    · intro assign rest₂ _ _ split₂
      have shorter : rest₂.length < bound := by
        simp [split₁, split₂] at fits
        omega
      apply Accounts.sequence (below.expression shorter 0)
      · intro value rest₃ valid _ split₃
        apply afterValue_accounts below name assign valid.1
        simp [split₃] at shorter
        omega
      · intro value valid
        exact Category.bindings.begins_of_holds (.last name assign value) valid.1
    · intro assign _
      exact bindings_begins_value name assign
  · intro name _
    exact bindings_begins name

theorem accountsBelow (bound : Nat) : AccountsBelow bound := by
  induction bound with
  | zero =>
    constructor <;> intro tokens fewer <;> exact absurd fewer (Nat.not_lt_zero _)
  | succ bound below =>
    constructor <;> intro tokens fewer <;> have fits := Nat.le_of_lt_succ fewer
    · exact expression_accounts below fits
    · intro least left
      exact continuations_accounts below fits
    · exact items_accounts below fits
    · exact bindings_accounts below fits

theorem expression_accounts_all (least : Nat) (tokens : List Token) :
    Accounts (.expression least) [] (readExpression least) tokens :=
  (accountsBelow (tokens.length + 1)).expression (Nat.lt_succ_self _) least

/-- What the parser accepts is grammatical and has exactly the tokens that it was given. -/
theorem readProgram_sound {tokens : List Token} {phrase : Phrase}
    (accepted : readProgram tokens = .ok phrase) : phrase.tokens = tokens ∧ phrase.Grammatical := by
  rw [readProgram_eq] at accepted
  split at accepted
  · cases accepted
  · rename_i read
    cases accepted
    obtain ⟨taken, split, spelled, holds, -, -⟩ := (expression_accounts_all 0 tokens).read read
    refine ⟨?_, holds.1⟩
    rw [split, List.append_nil]
    exact spelled
  · cases accepted

/-- Where the parser stops, a grammatical phrase begins with the tokens before, and the
parser stops there whatever follows the offending token. -/
theorem readProgram_stopped {tokens : List Token} {stop : Stop}
    (refused : readProgram tokens = .error stop) :
    ∃ taken, tokens = taken ++ stop.rest ∧
      (∃ (phrase : Phrase) (more : List Token), phrase.tokens = taken ++ more ∧ phrase.Grammatical ∧
        ∀ token ∈ more, token.lexeme.Proper) ∧ stop.Explained ∧
      ∀ later, later.head? = stop.rest.head? →
        readProgram (taken ++ later) = .error ⟨stop.reason, later⟩ := by
  rw [readProgram_eq] at refused
  split at refused
  · rename_i stopped
    cases refused
    obtain ⟨taken, split, ⟨phrase, more, spelled, holds, proper⟩, explained, again⟩ :=
      (expression_accounts_all 0 tokens).stopped stopped
    refine ⟨taken, split, ⟨phrase, more, spelled, holds.1, proper⟩, explained, fun later head => ?_⟩
    rw [readProgram_eq, again later head]
  · cases refused
  · rename_i phrase token rest read
    cases refused
    obtain ⟨taken, split, spelled, holds, -, again⟩ := (expression_accounts_all 0 tokens).read read
    refine ⟨taken, split, ⟨phrase, [], ?_, holds.1, nofun⟩, nofun, fun later head => ?_⟩
    · rw [List.append_nil]
      exact spelled
    · obtain ⟨more, rfl⟩ := List.head?_eq_some_iff.mp head
      rw [readProgram_eq, again (token :: more) rfl]

end Parser

end ClamSyntax
