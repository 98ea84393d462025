import ClamSyntax.Proofs.Phrase.Expression

namespace ClamSyntax

/-- What a lexeme contributes to a transcript: a literal stands for its value. -/
inductive Mark where
  | literal (value : Except Literal.BadEscape Value)
  | plain (lexeme : Lexeme)

def Lexeme.mark (lexeme : Lexeme) : Mark :=
  match Literal.value? lexeme with
  | some value => .literal value
  | none => .plain lexeme

def Symbol.mark (fixed : Symbol) : Mark := .plain (.symbol fixed)

mutual

/-- The expression in source order. -/
def Expr.transcript : Expr → List Mark
  | .literal value => [.literal (.ok value)]
  | .name text => [.plain (.identifier text)]
  | .list items =>
    Symbol.leftBrace.mark :: (Expr.transcriptItems items ++ [Symbol.rightBrace.mark])
  | .letIn bindings body =>
    Symbol.kwLet.mark :: (Expr.transcriptBindings bindings ++ Symbol.kwIn.mark :: body.transcript)
  | .function param body =>
    Symbol.kwFun.mark :: .plain (.identifier param) :: Symbol.arrow.mark :: body.transcript
  | .application callee argument => callee.transcript ++ argument.transcript
  | .print operand => Symbol.kwPrint.mark :: operand.transcript
  | .conditional condition yes no =>
    Symbol.kwIf.mark :: (condition.transcript ++ Symbol.kwThen.mark ::
      (yes.transcript ++ Symbol.kwElse.mark :: no.transcript))
  | .unary op operand => op.symbol.mark :: operand.transcript
  | .binary op left right => left.transcript ++ (Symbol.binary op).mark :: right.transcript
  | .subscript target index =>
    target.transcript ++ Symbol.leftBracket.mark ::
      (index.transcript ++ [Symbol.rightBracket.mark])

def Expr.transcriptItems : List Expr → List Mark
  | [] => []
  | [item] => item.transcript
  | item :: rest => item.transcript ++ Symbol.comma.mark :: Expr.transcriptItems rest

def Expr.transcriptBindings : List (String × Expr) → List Mark
  | [] => []
  | [(bound, value)] => .plain (.identifier bound) :: Symbol.assign.mark :: value.transcript
  | (bound, value) :: rest =>
    .plain (.identifier bound) :: Symbol.assign.mark ::
      (value.transcript ++ Symbol.comma.mark :: Expr.transcriptBindings rest)

end

/-- The symbols that are neither literals nor treated in a way of their own below. -/
def Symbol.isPlain : Symbol → Bool
  | leftParen | rightParen | comma | kwFun | kwTrue | kwFalse | kwUnit => false
  | _ => true

namespace Lexeme

def isParenthesis (lexeme : Lexeme) : Bool :=
  lexeme == .symbol .leftParen || lexeme == .symbol .rightParen

/-- Without the commas that stand directly before a closing brace. -/
def dropTrailingCommas : List Lexeme → List Lexeme
  | [] => []
  | lexeme :: rest =>
    if lexeme = .symbol .comma ∧ rest.head? = some (.symbol .rightBrace) then
      dropTrailingCommas rest
    else lexeme :: dropTrailingCommas rest

/-- Where a place is in the header of a function. -/
inductive Header where
  | outside | opened | named

/-- With a header of its own for every parameter. -/
def splitHeaders : Header → List Lexeme → List Lexeme
  | _, [] => []
  | header, lexeme :: rest =>
    match header, lexeme with
    | .named, .identifier _ =>
      .symbol .arrow :: .symbol .kwFun :: lexeme :: splitHeaders .named rest
    | .opened, .identifier _ => lexeme :: splitHeaders .named rest
    | _, .symbol .kwFun => lexeme :: splitHeaders .opened rest
    | _, _ => lexeme :: splitHeaders .outside rest

/-- What the lexemes amount to without parentheses, with every list and every function
written in one way. -/
def transcribe (lexemes : List Lexeme) : List Mark :=
  (splitHeaders .outside (dropTrailingCommas (lexemes.filter (!·.isParenthesis)))).map mark

/-- The parentheses that are open behind the lexemes; none if one closes too early. -/
def depth : Nat → List Lexeme → Option Nat
  | level, [] => some level
  | level, .symbol .leftParen :: rest => depth (level + 1) rest
  | 0, .symbol .rightParen :: _ => none
  | level + 1, .symbol .rightParen :: rest => depth level rest
  | level, _ :: rest => depth level rest

def Balanced (lexemes : List Lexeme) : Prop := depth 0 lexemes = some 0

/-- Not a lexeme that `transcribe` or `depth` treats in a way of its own. -/
def IsPlain (lexeme : Lexeme) : Prop :=
  lexeme ≠ .symbol .leftParen ∧ lexeme ≠ .symbol .rightParen ∧ lexeme ≠ .symbol .comma ∧
    lexeme ≠ .symbol .kwFun

variable {lexeme : Lexeme} (rest : List Lexeme)

theorem isParenthesis_of_isPlain (isPlain : lexeme.IsPlain) : lexeme.isParenthesis = false := by
  simp [isParenthesis, isPlain.1, isPlain.2.1]

theorem transcribe_plain (isPlain : lexeme.IsPlain) :
    transcribe (lexeme :: rest) = lexeme.mark :: transcribe rest := by
  have noComma : ¬ (lexeme = .symbol .comma ∧
      (rest.filter (!·.isParenthesis)).head? = some (.symbol .rightBrace)) :=
    fun both => isPlain.2.2.1 both.1
  have outside (others : List Lexeme) :
      splitHeaders .outside (lexeme :: others) = lexeme :: splitHeaders .outside others := by
    simp only [splitHeaders]
    split
    · contradiction
    · contradiction
    · exact absurd rfl isPlain.2.2.2
    · rfl
  simp only [transcribe, List.filter_cons, isParenthesis_of_isPlain isPlain, Bool.not_false,
    if_true, dropTrailingCommas, if_neg noComma, outside, List.map_cons]

theorem transcribe_symbol (fixed : Symbol) (isPlain : fixed.isPlain = true) :
    transcribe (.symbol fixed :: rest) = fixed.mark :: transcribe rest := by
  have plain : (Lexeme.symbol fixed).IsPlain := by
    refine ⟨?_, ?_, ?_, ?_⟩ <;> rintro ⟨⟩ <;> cases isPlain
  have noLiteral : (Lexeme.symbol fixed).mark = fixed.mark := by
    cases fixed <;> first | rfl | cases isPlain
  rw [transcribe_plain rest plain, noLiteral]

theorem transcribe_identifier (text : String) :
    transcribe (.identifier text :: rest) = .plain (.identifier text) :: transcribe rest :=
  transcribe_plain rest ⟨nofun, nofun, nofun, nofun⟩

theorem transcribe_leftParen :
    transcribe (.symbol .leftParen :: rest) = transcribe rest := rfl

theorem transcribe_rightParen :
    transcribe (.symbol .rightParen :: rest) = transcribe rest := rfl

theorem transcribe_trailing_comma :
    transcribe (.symbol .comma :: .symbol .rightBrace :: rest) =
      transcribe (.symbol .rightBrace :: rest) := rfl

/-- A comma stays before anything but a closing brace. -/
theorem transcribe_comma
    (noBrace : (rest.filter (!·.isParenthesis)).head? ≠ some (.symbol .rightBrace)) :
    transcribe (.symbol .comma :: rest) = Symbol.comma.mark :: transcribe rest := by
  have kept : ¬ (Lexeme.symbol .comma = .symbol .comma ∧
      (rest.filter (!·.isParenthesis)).head? = some (.symbol .rightBrace)) :=
    fun both => noBrace both.2
  change (splitHeaders .outside (dropTrailingCommas
    (.symbol .comma :: rest.filter (!·.isParenthesis)))).map mark = _
  rw [dropTrailingCommas, if_neg kept]
  rfl

private theorem splitHeaders_named {body : Expr} {after : List Mark}
    (inner : transcribe rest = body.transcript ++ after) (more : List Name) :
    (splitHeaders .named (dropTrailingCommas
        (((more.map Name.token).map Token.lexeme ++ .symbol .arrow :: rest).filter
          (!·.isParenthesis)))).map mark =
      Symbol.arrow.mark :: ((Expr.functions more body).transcript ++ after) := by
  induction more with
  | nil => exact congrArg (Symbol.arrow.mark :: ·) inner
  | cons param more ih =>
    have next (others : List Lexeme) :
        dropTrailingCommas ((.identifier param.text :: others).filter (!·.isParenthesis)) =
          .identifier param.text :: dropTrailingCommas (others.filter (!·.isParenthesis)) := by
      simp [dropTrailingCommas, isParenthesis]
    simp only [List.map_cons, List.cons_append, Name.token, next, splitHeaders, ih]
    rfl

theorem transcribe_header {body : Expr} {after : List Mark}
    (inner : transcribe rest = body.transcript ++ after) (first : String) (more : List Name) :
    transcribe (.symbol .kwFun :: .identifier first ::
        ((more.map Name.token).map Token.lexeme ++ .symbol .arrow :: rest)) =
      (Expr.function first (Expr.functions more body)).transcript ++ after := by
  have opened (others : List Lexeme) :
      dropTrailingCommas ((.symbol .kwFun :: .identifier first :: others).filter
          (!·.isParenthesis)) =
        .symbol .kwFun :: .identifier first ::
          dropTrailingCommas (others.filter (!·.isParenthesis)) := by
    simp [dropTrailingCommas, isParenthesis]
  rw [transcribe, opened]
  simp only [splitHeaders, List.map_cons, splitHeaders_named rest inner more]
  rfl

theorem depth_plain (isPlain : lexeme.IsPlain) (level : Nat) :
    depth level (lexeme :: rest) = depth level rest := by
  rw [depth.eq_def]
  split
  · contradiction
  · rename_i same
    exact absurd (List.cons.inj same).1 isPlain.1
  · rename_i same
    exact absurd (List.cons.inj same).1 isPlain.2.1
  · rename_i same
    exact absurd (List.cons.inj same).1 isPlain.2.1
  · rename_i same
    rw [(List.cons.inj same).2]

theorem isPlain_of_value {value : Except Literal.BadEscape Value}
    (denotes : Literal.value? lexeme = some value) : lexeme.IsPlain := by
  refine ⟨?_, ?_, ?_, ?_⟩ <;> rintro rfl <;> cases denotes

end Lexeme

/-- Behind its parentheses a phrase does not begin with a closing brace. -/
theorem Phrase.head_ne_rightBrace : ∀ {phrase : Phrase} (rest : List Lexeme),
    phrase.Grammatical →
      ((phrase.tokens.map Token.lexeme ++ rest).filter (!·.isParenthesis)).head? ≠
        some (.symbol .rightBrace)
  | .literal token _, rest, grammatical => by
    have isPlain := Lexeme.isPlain_of_value grammatical
    simp only [tokens, List.map_cons, List.cons_append, List.filter_cons,
      Lexeme.isParenthesis_of_isPlain isPlain]
    intro brace
    rw [Grammatical, Option.some.inj brace] at grammatical
    cases grammatical
  | .name _, _, _ | .list .., _, _ | .letIn .., _, _ | .function .., _, _ | .print .., _, _
  | .conditional .., _, _ => by intro brace; cases brace
  | .unary op _ _, _, _ => by cases op <;> (intro brace; cases brace)
  | .group _ body closing, rest, grammatical => by
    have inner := body.head_ne_rightBrace (.symbol .rightParen :: rest) grammatical
    simpa [tokens, Symbol.at, Lexeme.isParenthesis] using inner
  | .binary operand op _ right, rest, grammatical => by
    have inner := operand.head_ne_rightBrace
      (.symbol (.binary op) :: (right.tokens.map Token.lexeme ++ rest)) grammatical.1
    simpa [tokens, Symbol.at] using inner
  | .application operand argument, rest, grammatical => by
    have inner := operand.head_ne_rightBrace (argument.tokens.map Token.lexeme ++ rest)
      grammatical.1
    simpa [tokens] using inner
  | .subscript operand _ index _, rest, grammatical => by
    have inner := operand.head_ne_rightBrace (.symbol .leftBracket ::
      (index.tokens.map Token.lexeme ++ .symbol .rightBracket :: rest)) grammatical.1
    simpa [tokens, Symbol.at] using inner

mutual

/-- The tokens of a phrase amount to the transcript of its expression. -/
theorem Phrase.transcribe_tokens : ∀ (phrase : Phrase) (rest : List Lexeme), phrase.Grammatical →
    Lexeme.transcribe (phrase.tokens.map Token.lexeme ++ rest) =
      phrase.expr.transcript ++ Lexeme.transcribe rest
  | .literal token value, rest, grammatical => by
    refine (Lexeme.transcribe_plain _ (Lexeme.isPlain_of_value grammatical)).trans ?_
    rw [Lexeme.mark, show Literal.value? token.lexeme = _ from grammatical]
    rfl
  | .name name, rest, _ => Lexeme.transcribe_identifier rest name.text
  | .list opening items, rest, grammatical => by
    simp only [Phrase.tokens, Symbol.at, List.map_cons, List.cons_append,
      Lexeme.transcribe_symbol _ .leftBrace rfl, items.transcribe_tokens rest grammatical,
      Phrase.expr, Expr.transcript, List.append_assoc, List.nil_append]
  | .letIn opening bindings inAt body, rest, grammatical => by
    simp only [Phrase.tokens, Symbol.at, List.map_cons, List.map_append, List.cons_append,
      List.append_assoc, Lexeme.transcribe_symbol _ .kwLet rfl,
      Lexeme.transcribe_symbol _ .kwIn rfl, bindings.transcribe_tokens _ grammatical.1,
      body.transcribe_tokens _ grammatical.2, Phrase.expr, Expr.transcript]
  | .function opening first more arrow body, rest, grammatical => by
    have inner := body.transcribe_tokens rest grammatical
    have whole := Lexeme.transcribe_header _ inner first.text more
    simpa only [Phrase.tokens, Symbol.at, Name.token, List.map_cons, List.map_append,
      List.cons_append, List.append_assoc, Phrase.expr] using whole
  | .print opening operand, rest, grammatical => by
    simp only [Phrase.tokens, Symbol.at, List.map_cons, List.cons_append,
      Lexeme.transcribe_symbol _ .kwPrint rfl, operand.transcribe_tokens _ grammatical,
      Phrase.expr, Expr.transcript]
  | .conditional opening condition thenAt yes elseAt no, rest, grammatical => by
    simp only [Phrase.tokens, Symbol.at, List.map_cons, List.map_append, List.cons_append,
      List.append_assoc, Lexeme.transcribe_symbol _ .kwIf rfl,
      Lexeme.transcribe_symbol _ .kwThen rfl, Lexeme.transcribe_symbol _ .kwElse rfl,
      condition.transcribe_tokens _ grammatical.1, yes.transcribe_tokens _ grammatical.2.1,
      no.transcribe_tokens _ grammatical.2.2, Phrase.expr, Expr.transcript]
  | .unary op opening operand, rest, grammatical => by
    have plain : op.symbol.isPlain = true := by cases op <;> rfl
    simp only [Phrase.tokens, Symbol.at, List.map_cons, List.cons_append,
      Lexeme.transcribe_symbol _ _ plain, operand.transcribe_tokens _ grammatical.1,
      Phrase.expr, Expr.transcript]
  | .group opening body closing, rest, grammatical => by
    simp only [Phrase.tokens, Symbol.at, List.map_cons, List.map_append, List.map_nil,
      List.cons_append, List.append_assoc, List.nil_append, Lexeme.transcribe_leftParen,
      body.transcribe_tokens _ grammatical, Lexeme.transcribe_rightParen, Phrase.expr]
  | .binary left op place right, rest, grammatical => by
    simp only [Phrase.tokens, Symbol.at, List.map_cons, List.map_append, List.cons_append,
      List.append_assoc, Lexeme.transcribe_symbol _ (.binary op) rfl,
      left.transcribe_tokens _ grammatical.1, right.transcribe_tokens _ grammatical.2.1,
      Phrase.expr, Expr.transcript]
  | .application callee argument, rest, grammatical => by
    simp only [Phrase.tokens, List.map_append, List.append_assoc,
      callee.transcribe_tokens _ grammatical.1, argument.transcribe_tokens _ grammatical.2.1,
      Phrase.expr, Expr.transcript]
  | .subscript target opening index closing, rest, grammatical => by
    simp only [Phrase.tokens, Symbol.at, List.map_cons, List.map_append, List.map_nil,
      List.cons_append, List.append_assoc, List.nil_append,
      Lexeme.transcribe_symbol _ .leftBracket rfl, Lexeme.transcribe_symbol _ .rightBracket rfl,
      target.transcribe_tokens _ grammatical.1, index.transcribe_tokens _ grammatical.2.1,
      Phrase.expr, Expr.transcript]

theorem Items.transcribe_tokens : ∀ (items : Items) (rest : List Lexeme), items.Grammatical →
    Lexeme.transcribe (items.tokens.map Token.lexeme ++ rest) =
      Expr.transcriptItems items.exprs ++ Symbol.rightBrace.mark :: Lexeme.transcribe rest
  | .close _, rest, _ => Lexeme.transcribe_symbol rest .rightBrace rfl
  | .last item closing, rest, grammatical => by
    simp only [Items.tokens, Symbol.at, List.map_cons, List.map_append, List.map_nil,
      List.cons_append, List.append_assoc, List.nil_append,
      Lexeme.transcribe_symbol _ .rightBrace rfl, item.transcribe_tokens _ grammatical, Items.exprs,
      Expr.transcriptItems]
  | .more item comma (.close closing), rest, grammatical => by
    simp only [Items.tokens, Symbol.at, List.map_cons, List.map_append, List.map_nil,
      List.cons_append, List.append_assoc, List.nil_append, Lexeme.transcribe_trailing_comma,
      Lexeme.transcribe_symbol _ .rightBrace rfl, item.transcribe_tokens _ grammatical.1,
      Items.exprs, Expr.transcriptItems]
  | .more item comma (.last next closing), rest, grammatical => by
    have others := (Items.last next closing).transcribe_tokens rest grammatical.2
    simp only [Items.tokens, Symbol.at, List.map_cons, List.map_append, List.map_nil,
      List.cons_append, List.append_assoc, List.nil_append] at others ⊢
    rw [item.transcribe_tokens _ grammatical.1, Lexeme.transcribe_comma _
      (Phrase.head_ne_rightBrace _ grammatical.2), others]
    simp only [Items.exprs, Expr.transcriptItems, List.cons_append, List.append_assoc]
  | .more item comma (.more next comma' more), rest, grammatical => by
    have others := (Items.more next comma' more).transcribe_tokens rest grammatical.2
    simp only [Items.tokens, Symbol.at, List.map_cons, List.map_append, List.cons_append,
      List.append_assoc] at others ⊢
    rw [item.transcribe_tokens _ grammatical.1, Lexeme.transcribe_comma _
      (Phrase.head_ne_rightBrace _ grammatical.2.1), others]
    simp only [Items.exprs, Expr.transcriptItems, List.cons_append, List.append_assoc]

theorem Bindings.transcribe_tokens : ∀ (bindings : Bindings) (rest : List Lexeme),
    bindings.Grammatical →
    Lexeme.transcribe (bindings.tokens.map Token.lexeme ++ rest) =
      Expr.transcriptBindings bindings.exprs ++ Lexeme.transcribe rest
  | .last name assign value, rest, grammatical => by
    simp only [Bindings.tokens, Symbol.at, Name.token, List.map_cons, List.cons_append,
      Lexeme.transcribe_identifier, Lexeme.transcribe_symbol _ .assign rfl,
      value.transcribe_tokens _ grammatical, Bindings.exprs, Expr.transcriptBindings]
  | .more name assign value comma more, rest, grammatical => by
    have others := more.transcribe_tokens rest grammatical.2
    have noBrace : ((more.tokens.map Token.lexeme ++ rest).filter (!·.isParenthesis)).head? ≠
        some (.symbol .rightBrace) := by
      cases more <;> exact nofun
    simp only [Bindings.tokens, Symbol.at, Name.token, List.map_cons, List.map_append,
      List.cons_append, List.append_assoc, Lexeme.transcribe_identifier,
      Lexeme.transcribe_symbol _ .assign rfl, value.transcribe_tokens _ grammatical.1,
      Lexeme.transcribe_comma _ noBrace, others]
    cases more <;>
      simp only [Bindings.exprs, Expr.transcriptBindings, List.cons_append, List.append_assoc]

end

theorem Name.depth_tokens (names : List Name) (level : Nat) (rest : List Lexeme) :
    Lexeme.depth level ((names.map Name.token).map Token.lexeme ++ rest) =
      Lexeme.depth level rest := by
  induction names with
  | nil => rfl
  | cons name names ih => exact ih

mutual

/-- The parentheses in a phrase are balanced. -/
theorem Phrase.depth_tokens : ∀ (phrase : Phrase) (level : Nat) (rest : List Lexeme),
    phrase.Grammatical →
      Lexeme.depth level (phrase.tokens.map Token.lexeme ++ rest) = Lexeme.depth level rest
  | .literal _ _, level, rest, grammatical =>
    Lexeme.depth_plain rest (Lexeme.isPlain_of_value grammatical) level
  | .name _, _, _, _ => rfl
  | .list _ items, level, rest, grammatical => items.depth_tokens level rest grammatical
  | .letIn _ bindings _ body, level, rest, grammatical => by
    simp only [Phrase.tokens, Symbol.at, List.map_cons, List.map_append, List.cons_append,
      List.append_assoc, Lexeme.depth, bindings.depth_tokens _ _ grammatical.1,
      body.depth_tokens _ _ grammatical.2]
  | .function _ _ _ _ body, level, rest, grammatical => by
    simp only [Phrase.tokens, Symbol.at, Name.token, List.map_cons, List.map_append,
      List.cons_append, List.append_assoc, Lexeme.depth, Name.depth_tokens,
      body.depth_tokens _ _ grammatical]
  | .print _ operand, level, rest, grammatical => operand.depth_tokens level rest grammatical
  | .conditional _ condition _ yes _ no, level, rest, grammatical => by
    simp only [Phrase.tokens, Symbol.at, List.map_cons, List.map_append, List.cons_append,
      List.append_assoc, Lexeme.depth, condition.depth_tokens _ _ grammatical.1,
      yes.depth_tokens _ _ grammatical.2.1, no.depth_tokens _ _ grammatical.2.2]
  | .unary op _ operand, level, rest, grammatical => by
    cases op <;> exact operand.depth_tokens level rest grammatical.1
  | .group _ body _, level, rest, grammatical => by
    simp only [Phrase.tokens, Symbol.at, List.map_cons, List.map_append, List.map_nil,
      List.cons_append, List.append_assoc, List.nil_append, Lexeme.depth,
      body.depth_tokens _ _ grammatical]
  | .binary left _ _ right, level, rest, grammatical => by
    simp only [Phrase.tokens, Symbol.at, List.map_cons, List.map_append, List.cons_append,
      List.append_assoc, Lexeme.depth, left.depth_tokens _ _ grammatical.1,
      right.depth_tokens _ _ grammatical.2.1]
  | .application callee argument, level, rest, grammatical => by
    simp only [Phrase.tokens, List.map_append, List.append_assoc,
      callee.depth_tokens _ _ grammatical.1, argument.depth_tokens _ _ grammatical.2.1]
  | .subscript target _ index _, level, rest, grammatical => by
    simp only [Phrase.tokens, Symbol.at, List.map_cons, List.map_append, List.map_nil,
      List.cons_append, List.append_assoc, List.nil_append, Lexeme.depth,
      target.depth_tokens _ _ grammatical.1, index.depth_tokens _ _ grammatical.2.1]

theorem Items.depth_tokens : ∀ (items : Items) (level : Nat) (rest : List Lexeme),
    items.Grammatical →
      Lexeme.depth level (items.tokens.map Token.lexeme ++ rest) = Lexeme.depth level rest
  | .close _, _, _, _ => rfl
  | .last item _, level, rest, grammatical => by
    simp only [Items.tokens, Symbol.at, List.map_cons, List.map_append, List.map_nil,
      List.cons_append, List.append_assoc, List.nil_append, Lexeme.depth,
      item.depth_tokens _ _ grammatical]
  | .more item _ more, level, rest, grammatical => by
    simp only [Items.tokens, Symbol.at, List.map_cons, List.map_append, List.cons_append,
      List.append_assoc, Lexeme.depth, item.depth_tokens _ _ grammatical.1,
      more.depth_tokens _ _ grammatical.2]

theorem Bindings.depth_tokens : ∀ (bindings : Bindings) (level : Nat) (rest : List Lexeme),
    bindings.Grammatical →
      Lexeme.depth level (bindings.tokens.map Token.lexeme ++ rest) = Lexeme.depth level rest
  | .last _ _ value, level, rest, grammatical => value.depth_tokens level rest grammatical
  | .more _ _ value _ more, level, rest, grammatical => by
    simp only [Bindings.tokens, Symbol.at, Name.token, List.map_cons, List.map_append,
      List.cons_append, List.append_assoc, Lexeme.depth, value.depth_tokens _ _ grammatical.1,
      more.depth_tokens _ _ grammatical.2]

end

theorem Lexeme.kind_ne_invalid_of_value {lexeme : Lexeme}
    {value : Except Literal.BadEscape Value} (denotes : Literal.value? lexeme = some value) :
    lexeme.kind ≠ .invalid := by
  cases lexeme with
  | invalid text => cases denotes
  | _ => exact nofun

mutual

theorem Phrase.kind_ne_invalid : ∀ phrase : Phrase, phrase.Grammatical →
    ∀ token ∈ phrase.tokens, token.kind ≠ .invalid
  | .literal _ _, grammatical =>
    List.forall_mem_singleton.mpr (Lexeme.kind_ne_invalid_of_value grammatical)
  | .name _, _ => List.forall_mem_singleton.mpr nofun
  | .list _ items, grammatical =>
    List.forall_mem_cons.mpr ⟨nofun, items.kind_ne_invalid grammatical⟩
  | .letIn _ bindings _ body, grammatical => by
    simp only [Phrase.tokens, List.forall_mem_cons, List.forall_mem_append]
    exact ⟨nofun, bindings.kind_ne_invalid grammatical.1, nofun,
      body.kind_ne_invalid grammatical.2⟩
  | .function _ _ _ _ body, grammatical => by
    simp only [Phrase.tokens, List.forall_mem_cons, List.forall_mem_append, List.forall_mem_map]
    exact ⟨nofun, nofun, fun _ _ => nofun, nofun, body.kind_ne_invalid grammatical⟩
  | .print _ operand, grammatical =>
    List.forall_mem_cons.mpr ⟨nofun, operand.kind_ne_invalid grammatical⟩
  | .conditional _ condition _ yes _ no, grammatical => by
    simp only [Phrase.tokens, List.forall_mem_cons, List.forall_mem_append]
    exact ⟨nofun, condition.kind_ne_invalid grammatical.1, nofun,
      yes.kind_ne_invalid grammatical.2.1, nofun, no.kind_ne_invalid grammatical.2.2⟩
  | .unary _ _ operand, grammatical =>
    List.forall_mem_cons.mpr ⟨nofun, operand.kind_ne_invalid grammatical.1⟩
  | .group _ body _, grammatical => by
    simp only [Phrase.tokens, List.forall_mem_cons, List.forall_mem_append]
    exact ⟨nofun, body.kind_ne_invalid grammatical, nofun, nofun⟩
  | .binary left _ _ right, grammatical => by
    simp only [Phrase.tokens, List.forall_mem_cons, List.forall_mem_append]
    exact ⟨left.kind_ne_invalid grammatical.1, nofun, right.kind_ne_invalid grammatical.2.1⟩
  | .application callee argument, grammatical => by
    simp only [Phrase.tokens, List.forall_mem_append]
    exact ⟨callee.kind_ne_invalid grammatical.1, argument.kind_ne_invalid grammatical.2.1⟩
  | .subscript target _ index _, grammatical => by
    simp only [Phrase.tokens, List.forall_mem_cons, List.forall_mem_append]
    exact ⟨target.kind_ne_invalid grammatical.1, nofun, index.kind_ne_invalid grammatical.2.1,
      nofun, nofun⟩

theorem Items.kind_ne_invalid : ∀ items : Items, items.Grammatical →
    ∀ token ∈ items.tokens, token.kind ≠ .invalid
  | .close _, _ => List.forall_mem_singleton.mpr nofun
  | .last item _, grammatical => by
    simp only [Items.tokens, List.forall_mem_append, List.forall_mem_singleton]
    exact ⟨item.kind_ne_invalid grammatical, nofun⟩
  | .more item _ rest, grammatical => by
    simp only [Items.tokens, List.forall_mem_cons, List.forall_mem_append]
    exact ⟨item.kind_ne_invalid grammatical.1, nofun, rest.kind_ne_invalid grammatical.2⟩

theorem Bindings.kind_ne_invalid : ∀ bindings : Bindings, bindings.Grammatical →
    ∀ token ∈ bindings.tokens, token.kind ≠ .invalid
  | .last _ _ value, grammatical => by
    simp only [Bindings.tokens, List.forall_mem_cons]
    exact ⟨nofun, nofun, value.kind_ne_invalid grammatical⟩
  | .more _ _ value _ rest, grammatical => by
    simp only [Bindings.tokens, List.forall_mem_cons, List.forall_mem_append]
    exact ⟨nofun, nofun, value.kind_ne_invalid grammatical.1, nofun,
      rest.kind_ne_invalid grammatical.2⟩

end

end ClamSyntax
