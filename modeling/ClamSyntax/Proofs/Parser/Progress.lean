import ClamSyntax.Proofs.Parser.Metering

/-! Every reader keeps to the parser's. The parser's readers never leave more tokens than there
were, so an allowance above the number of tokens that are left is never used up: a nested
expression and a further turn of a loop begin behind a token that was taken. -/

namespace ClamSyntax

namespace Parser

theorem Reading.andThen_assoc (reading : Reading α) (next : α → List Token → Reading β)
    (last : β → List Token → Reading γ) :
    (reading.andThen next).andThen last =
      reading.andThen fun value rest => (next value rest).andThen last := by
  cases reading <;> rfl

private theorem Outcome.length_lt_of {origin rest : List Token} {outcome : Outcome α origin}
    {value : α}
    {bound : Nat} (read : outcome.reading = .ok (value, rest)) (fewer : origin.length < bound) :
    rest.length < bound := Nat.lt_trans (Outcome.length_lt read) fewer

/-- The names at the head of the tokens, and the tokens behind them. -/
def leadingNames : List Token → List Name × List Token
  | [] => ([], [])
  | token :: rest =>
    match token.lexeme with
    | .identifier text => (⟨text, token.start⟩ :: (leadingNames rest).1, (leadingNames rest).2)
    | _ => ([], token :: rest)

private theorem leadingNames_length_le (tokens : List Token) :
    (leadingNames tokens).2.length ≤ tokens.length := by
  induction tokens with
  | nil => exact Nat.le_refl _
  | cons token rest ih =>
    rw [leadingNames]
    split
    · exact Nat.le_succ_of_le ih
    · exact Nat.le_refl _

/-- The parameters behind the first one are the leading names, with an arrow behind them. -/
theorem readParameters_eq (tokens : List Token) :
    readParameters tokens =
      Reading.andThen (.ok (leadingNames tokens)) fun names rest =>
        (readSymbol .arrow rest).andThen fun arrow rest₁ => .ok ((names, arrow), rest₁) := by
  induction tokens with
  | nil => rfl
  | cons token rest ih =>
    obtain ⟨lexeme, start⟩ := token
    rw [readParameters_cons, leadingNames]
    cases lexeme with
    | identifier text =>
      simp only [ih, Reading.andThen]
      cases readSymbol .arrow (leadingNames rest).2 <;> rfl
    | symbol fixed => cases fixed <;> rfl
    | _ => rfl

end Parser

namespace Metered

open ClamSyntax.Parser

/-- Readers of expressions that keep to the parser's where fewer tokens are left than the
bound. -/
def Nests (input : Remainder) (nested : Nat → Metered Phrase) (bound : Nat) : Prop :=
  ∀ {tokens} least, tokens.length < bound →
    Keeps input (nested least) tokens (readExpression least tokens)

variable {input : Remainder} {nested : Nat → Metered Phrase} {bound : Nat} {tokens : List Token}

abbrev ending (input : Remainder) : Token := Token.atEnd input.size

theorem symbol_keeps (fixed : Symbol) (tokens : List Token) :
    Keeps input (symbol fixed) tokens (readSymbol fixed tokens) := by
  cases tokens with
  | nil => exact follows_refuse (ending input) rfl rfl
  | cons token rest =>
    rw [readSymbol_cons]
    by_cases here : token.lexeme = .symbol fixed
    · refine follows_take ?_
      simp only [if_pos here]
      exact follows_pure rfl
    · rw [if_neg here]
      exact follows_refuse token rfl (if_neg here)

theorem name_keeps (tokens : List Token) : Keeps input name tokens (readName tokens) := by
  cases tokens with
  | nil => exact follows_refuse (ending input) rfl rfl
  | cons token rest =>
    obtain ⟨lexeme, start⟩ := token
    rw [readName_cons]
    cases lexeme with
    | identifier text => exact follows_take (follows_pure rfl)
    | _ => exact follows_refuse _ rfl rfl

def readNamesBehind (before : List Name) (tokens : List Token) : Reading (List Name) :=
  .ok (before ++ (leadingNames tokens).1, (leadingNames tokens).2)

private theorem parameter_turns : Turns input parameter readNamesBehind bound := by
  intro before tokens below
  rw [readNamesBehind]
  cases tokens with
  | nil =>
    refine follows_look (ending input) rfl (follows_pure ?_)
    simp only [Leads, leadingNames, List.append_nil]
  | cons token rest =>
    obtain ⟨lexeme, start⟩ := token
    refine follows_look _ rfl ?_
    cases lexeme with
    | identifier text =>
      refine follows_take (follows_pure ⟨Nat.lt_succ_self _, ?_⟩)
      simp only [readNamesBehind, leadingNames, List.append_assoc, List.singleton_append]
    | _ => exact follows_pure (by simp only [Leads, leadingNames, List.append_nil])

def readItemsBehind (before : Items → Items) (tokens : List Token) : Reading Items :=
  (readItems tokens).andThen fun items rest => .ok (before items, rest)

private theorem separator_follows (before : Items → Items) (item : Phrase) {count : Nat}
    (fewer : tokens.length < count) :
    Follows input (separator before item) tokens
      ((afterItem item tokens).andThen fun items rest => .ok (before items, rest))
      (Leads readItemsBehind count) := by
  cases tokens with
  | nil => exact follows_refuse (ending input) rfl rfl
  | cons token rest =>
    rw [afterItem]
    by_cases comma : token.lexeme = .symbol .comma
    · refine follows_take ?_
      simp only [if_pos comma, Reading.andThen_assoc]
      exact follows_pure ⟨Nat.lt_of_succ_lt fewer, rfl⟩
    · by_cases brace : token.lexeme = .symbol .rightBrace
      · refine follows_take ?_
        simp only [if_neg comma, if_pos brace]
        exact follows_pure rfl
      · simp only [if_neg comma, if_neg brace]
        exact follows_refuse token rfl (by simp only [if_neg comma, if_neg brace])

private theorem item_turns (nests : Nests input nested bound) :
    Turns input (item nested) readItemsBehind bound := by
  intro before tokens below
  rw [readItemsBehind]
  cases tokens with
  | nil =>
    have first : readItems [] = (readExpression 0 []).andThen afterItem := by
      rw [readItems_nil, readExpression_nil]
      rfl
    rw [first, Reading.andThen_assoc]
    refine follows_look (ending input) rfl (follows_andThen (nests 0 below) fun item _ read => ?_)
    exact separator_follows before item (Outcome.length_lt read)
  | cons token rest =>
    rw [readItems_cons]
    refine follows_look token rfl ?_
    by_cases brace : token.lexeme = .symbol .rightBrace
    · simp only [if_pos brace]
      exact follows_take (follows_pure rfl)
    · simp only [if_neg brace, Reading.andThen_assoc]
      refine follows_andThen (nests 0 below) fun item rest₁ read => ?_
      exact separator_follows before item (Outcome.length_lt read)

def readBindingsBehind (before : Bindings → Bindings) (tokens : List Token) : Reading Bindings :=
  (readBindings tokens).andThen fun bindings rest => .ok (before bindings, rest)

private theorem binding_turns (nests : Nests input nested bound) :
    Turns input (binding nested) readBindingsBehind bound := by
  intro before tokens below
  simp only [readBindingsBehind, readBindings_eq, Reading.andThen_assoc]
  refine follows_andThen (name_keeps tokens) fun name rest₁ named => ?_
  refine follows_andThen (symbol_keeps .assign rest₁) fun assign rest₂ assigned => ?_
  have shorter : rest₂.length < tokens.length :=
    Nat.lt_trans (Outcome.length_lt assigned) (Outcome.length_lt named)
  refine follows_andThen (nests 0 (Nat.lt_trans shorter below)) fun value rest₃ read => ?_
  cases rest₃ with
  | nil => exact follows_look (ending input) rfl (follows_pure rfl)
  | cons token rest =>
    refine follows_look token rfl ?_
    rw [afterValue]
    by_cases comma : token.lexeme = .symbol .comma
    · simp only [if_pos comma, Reading.andThen_assoc]
      have fewer : rest.length < tokens.length :=
        Nat.lt_trans (Nat.lt_of_succ_lt (Outcome.length_lt read)) shorter
      exact follows_take (follows_pure ⟨fewer, rfl⟩)
    · simp only [if_neg comma]
      exact follows_pure rfl

private theorem continuation_turns (nests : Nests input nested bound) (least : Nat) :
    Turns input (continuation nested least) (readContinuations least) bound := by
  intro left tokens below
  rw [readContinuations_eq]
  cases tokens with
  | nil => exact follows_look (ending input) rfl (follows_pure rfl)
  | cons token rest =>
    have fewer : rest.length < bound := Nat.lt_of_succ_lt below
    refine follows_look token rfl ?_
    rw [afterOperand]
    cases token.kind.continuation with
    | operator op =>
      by_cases low : op.power.left < least
      · simp only [if_pos low]
        exact follows_pure rfl
      · simp only [if_neg low]
        refine follows_take (follows_andThen (nests _ fewer) fun right rest₁ read => ?_)
        exact follows_pure ⟨Nat.lt_succ_of_lt (Outcome.length_lt read), rfl⟩
    | argument =>
      by_cases low : Power.application.left < least
      · simp only [if_pos low]
        exact follows_pure rfl
      · simp only [if_neg low]
        refine follows_andThen (nests _ below) fun argument rest₁ read => ?_
        exact follows_pure ⟨Outcome.length_lt read, rfl⟩
    | subscript =>
      refine follows_take (follows_andThen (nests _ fewer) fun index rest₁ read => ?_)
      refine follows_andThen (symbol_keeps .rightBracket rest₁) fun closing rest₂ closed => ?_
      have shorter := Nat.lt_trans (Outcome.length_lt closed) (Outcome.length_lt read)
      exact follows_pure ⟨Nat.lt_succ_of_lt shorter, rfl⟩
    | stop => exact follows_pure rfl
    | misplaced => exact follows_refuse token rfl rfl

private theorem items_keep (nests : Nests input nested bound) (fewer : tokens.length < bound) :
    Keeps input (loop .item (item nested) bound id) tokens (readItems tokens) := by
  have same : readItemsBehind id tokens = readItems tokens := by
    rw [readItemsBehind]
    cases readItems tokens <;> rfl
  exact same ▸ keeps_loop (item_turns nests) .item fewer fewer

private theorem bindings_keep (nests : Nests input nested bound) (fewer : tokens.length < bound) :
    Keeps input (loop .binding (binding nested) bound id) tokens (readBindings tokens) := by
  have same : readBindingsBehind id tokens = readBindings tokens := by
    rw [readBindingsBehind]
    cases readBindings tokens <;> rfl
  exact same ▸ keeps_loop (binding_turns nests) .binding fewer fewer

private theorem names_keep (fewer : tokens.length < bound) :
    Keeps input (loop .parameter parameter bound []) tokens (.ok (leadingNames tokens)) :=
  keeps_loop parameter_turns .parameter fewer fewer

/-- A form keeps to what is read behind the token that opens it, where what is nested in it
stands. -/
theorem form_keeps (nests : Nests input nested bound) (token : Token) {rest : List Token}
    (fewer : rest.length < bound) :
    Keeps input (form nested bound token) (token :: rest) (afterOpening token rest) := by
  rw [form, afterOpening]
  cases token.lexeme.opening with
  | literal value =>
    cases value with
    | ok value => exact follows_take (follows_pure rfl)
    | error fault => exact follows_refuse token rfl rfl
  | name text => exact follows_take (follows_pure rfl)
  | list =>
    refine follows_take (follows_andThen (items_keep nests fewer) fun items rest₁ read => ?_)
    exact follows_pure rfl
  | letIn =>
    refine follows_take (follows_andThen (bindings_keep nests fewer) fun bindings rest₁ bound => ?_)
    refine follows_andThen (symbol_keeps .kwIn rest₁) fun inAt rest₂ found => ?_
    have fewer₂ := Outcome.length_lt_of found (Outcome.length_lt_of bound fewer)
    exact follows_andThen (nests 0 fewer₂) fun body rest₃ read => follows_pure rfl
  | function =>
    refine follows_take (follows_andThen (name_keeps rest) fun first rest₁ named => ?_)
    have fewer₁ := Outcome.length_lt_of named fewer
    simp only [readParameters_eq, Reading.andThen_assoc]
    refine follows_andThen (names_keep fewer₁) fun more rest₂ names => ?_
    have notMore := leadingNames_length_le rest₁
    rw [Except.ok.inj names] at notMore
    refine follows_andThen (symbol_keeps .arrow rest₂) fun arrow rest₃ found => ?_
    have fewer₃ := Outcome.length_lt_of found (Nat.lt_of_le_of_lt notMore fewer₁)
    exact follows_andThen (nests 0 fewer₃) fun body rest₄ read => follows_pure rfl
  | print =>
    exact follows_take (follows_andThen (nests 0 fewer) fun operand rest₁ read => follows_pure rfl)
  | conditional =>
    refine follows_take (follows_andThen (nests 0 fewer) fun condition rest₁ read₁ => ?_)
    refine follows_andThen (symbol_keeps .kwThen rest₁) fun thenAt rest₂ found₂ => ?_
    have fewer₂ := Outcome.length_lt_of found₂ (Outcome.length_lt_of read₁ fewer)
    refine follows_andThen (nests 0 fewer₂) fun yes rest₃ read₃ => ?_
    refine follows_andThen (symbol_keeps .kwElse rest₃) fun elseAt rest₄ found₄ => ?_
    have fewer₄ := Outcome.length_lt_of found₄ (Outcome.length_lt_of read₃ fewer₂)
    exact follows_andThen (nests 0 fewer₄) fun no rest₅ read₅ => follows_pure rfl
  | unary op =>
    exact follows_take (follows_andThen (nests _ fewer) fun operand rest₁ read => follows_pure rfl)
  | group =>
    refine follows_take (follows_andThen (nests 0 fewer) fun body rest₁ read => ?_)
    refine follows_andThen (symbol_keeps .rightParen rest₁) fun closing rest₂ closed => ?_
    exact follows_pure rfl
  | nothing => exact follows_refuse token rfl rfl

theorem term_keeps (nests : Nests input nested bound) (fewer : tokens.length ≤ bound) :
    Keeps input (term nested bound) tokens (readTerm tokens) := by
  refine keeps_metered ?_ fun phrase rest read => Outcome.length_lt read
  cases tokens with
  | nil =>
    rw [readTerm_nil]
    exact follows_look (ending input) rfl (follows_refuse (ending input) rfl rfl)
  | cons token rest =>
    rw [readTerm_cons]
    exact follows_look token rfl (form_keeps nests token fewer)

/-- An expression does what the parser's does, if the allowance is above the number of tokens
that are left. -/
theorem expression_keeps (allowance least : Nat) (enough : tokens.length < allowance) :
    Keeps input (expression allowance least) tokens (readExpression least tokens) := by
  -- what is nested stands behind a token of its own, which pays for the allowance it lacks
  induction allowance generalizing tokens least with
  | zero => exact absurd enough (Nat.not_lt_zero _)
  | succ allowance ih =>
    have nests : Nests input (expression allowance) allowance := fun least below => ih least below
    refine keeps_metered ?_ fun phrase rest read => Outcome.length_lt read
    rw [readExpression_eq]
    refine follows_andThen (term_keeps nests (Nat.le_of_lt_succ enough)) fun left rest read => ?_
    have fewer : rest.length < allowance :=
      Nat.lt_of_lt_of_le (Outcome.length_lt read) (Nat.le_of_lt_succ enough)
    exact keeps_loop (continuation_turns nests least) .continuation fewer fewer

end Metered

end ClamSyntax
