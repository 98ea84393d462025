import ClamSyntax.Proofs.Checked.Nodes

/-! The reader agrees with the parser. By induction on the number of tokens that are left every
reader leaves in the store what the parser's phrase leaves there, and none of its operations
fails. -/

namespace ClamSyntax.Checked

open ClamSyntax.Parser Step

/-- Tokens of the source that are still to be read, fewer than the bound. -/
structure Remaining (source : List Char) (bound : Nat) (tokens : List Token) : Prop where
  fewer : tokens.length < bound
  part : tokens <:+ Lexer.tokens source

namespace Remaining

variable {source : List Char} {bound : Nat} {tokens taken rest : List Token}

theorem behind (remaining : Remaining source bound tokens) (split : tokens = taken ++ rest) :
    Remaining source bound rest := by
  subst split
  have fewer := remaining.fewer
  rw [List.length_append] at fewer
  exact ⟨by omega, (List.suffix_append ..).trans remaining.part⟩

theorem tail {token : Token} (remaining : Remaining source (bound + 1) (token :: rest)) :
    Remaining source bound rest :=
  ⟨Nat.lt_of_succ_lt_succ remaining.fewer, (List.suffix_cons ..).trans remaining.part⟩

theorem behindToken {token : Token} (remaining : Remaining source bound tokens)
    (split : tokens = token :: rest) : Remaining source bound rest :=
  remaining.behind (show tokens = [token] ++ rest from split)

theorem behindPhrase {phrase : Phrase} (remaining : Remaining source (bound + 1) tokens)
    (split : tokens = phrase.tokens ++ rest) : Remaining source bound rest := by
  have present := List.length_pos_of_mem phrase.first_mem
  have fewer := remaining.fewer
  rw [split, List.length_append] at fewer
  exact ⟨by omega, (remaining.behind split).part⟩

end Remaining

/-- The tokens of a phrase that was read stand in the source one behind the other. -/
theorem inOrder_of_split {source : List Char} {tokens rest : List Token} {phrase : Phrase}
    (part : tokens <:+ Lexer.tokens source) (split : tokens = phrase.tokens ++ rest) :
    InOrder phrase.tokens := by
  subst split
  exact (Lexer.tokens_inOrder source).sublist
    ((List.sublist_append_left ..).trans part.sublist)

/-- The readers that call one another agree with the parser's, at fewer tokens than the bound. -/
structure AgreesBelow (source : List Char) (bound : Nat) : Prop where
  expression : ∀ {tokens}, Remaining source bound tokens → ∀ least arena,
    (expression source (ending source) least (.at tokens arena)).Agrees source
      (storePhrase arena) (readExpression least tokens)
  continuations : ∀ {tokens} (left : Phrase), Remaining source bound tokens →
    left.tokens ++ tokens <:+ Lexer.tokens source → ∀ least arena origin shorter,
      (continuations source (ending source) origin least (storePhrase arena left).1
        (.at tokens (storePhrase arena left).2) shorter).Agrees source
        (storePhrase arena) (readContinuations least left tokens)
  items : ∀ {tokens}, Remaining source bound tokens → ∀ arena,
    (items source (ending source) (.at tokens arena)).Agrees source
      (storeItems arena) (readItems tokens)
  bindings : ∀ {tokens}, Remaining source bound tokens → ∀ arena,
    (bindings source (ending source) (.at tokens arena)).Agrees source
      (storeBindings arena) (readBindings tokens)

section Readers

variable {source : List Char} (small : Text.size source < UInt32.size) {bound start : Nat}
  (below : AgreesBelow source bound) {tokens rest : List Token}

section Forms

include below

/-! A form that is open is read on, one reader behind the other, and ends with its node. What its
parts took and its own tokens split the tokens, so its range runs forwards. -/

private theorem list_form_agrees
    (remaining : Remaining source (bound + 1) (Symbol.leftBrace.at start :: rest))
    (arena : Arena) :
    (term source (ending source) (.at (Symbol.leftBrace.at start :: rest) arena)).Agrees source
      (storePhrase arena) (readTerm (Symbol.leftBrace.at start :: rest)) := by
  rw [readTerm_cons, State.at, List.map_cons, term]
  refine (below.items remaining.tail arena).andThen fun items rest₁ read₁ _ => ?_
  have split : Symbol.leftBrace.at start :: rest =
      (Phrase.list start items).tokens ++ rest₁ := by
    rw [readItems_split read₁]
    rfl
  exact list_agrees (inOrder_of_split remaining.part split) _

private theorem letIn_form_agrees
    (remaining : Remaining source (bound + 1) (Symbol.kwLet.at start :: rest)) (arena : Arena) :
    (term source (ending source) (.at (Symbol.kwLet.at start :: rest) arena)).Agrees source
      (storePhrase arena) (readTerm (Symbol.kwLet.at start :: rest)) := by
  rw [readTerm_cons, State.at, List.map_cons, term]
  refine (below.bindings remaining.tail arena).andThen fun bindings rest₁ read₁ _ => ?_
  refine (expect_agrees .kwIn rest₁ _).andThen fun inAt rest₂ read₂ _ => ?_
  have split₁ := readBindings_split read₁
  have split₂ := readSymbol_split read₂
  have behind₂ := (remaining.tail.behind split₁).behindToken split₂
  refine (below.expression behind₂ 0 _).andThen fun body rest₃ read₃ _ => ?_
  have split : Symbol.kwLet.at start :: rest =
      (Phrase.letIn start bindings inAt body).tokens ++ rest₃ := by
    rw [split₁, split₂, readExpression_split read₃, Phrase.tokens]
    simp
  exact enclose_agrees (inOrder_of_split remaining.part split) rfl rfl _

private theorem function_form_agrees
    (remaining : Remaining source (bound + 1) (Symbol.kwFun.at start :: rest)) (arena : Arena) :
    (term source (ending source) (.at (Symbol.kwFun.at start :: rest) arena)).Agrees source
      (storePhrase arena) (readTerm (Symbol.kwFun.at start :: rest)) := by
  rw [readTerm_cons, State.at, List.map_cons, term]
  refine (identifier_agrees rest arena).andThen fun first rest₁ read₁ _ => ?_
  have split₁ := readName_split read₁
  have behind₁ := remaining.tail.behindToken split₁
  have named : first.token ∈ Lexer.tokens source :=
    remaining.tail.part.subset (split₁ ▸ List.mem_cons_self)
  rw [check_ok (name_eq first named)]
  refine (parameters_agrees arena behind₁.part.subset).andThen fun more rest₂ read₂ _ => ?_
  have split₂ := readParameters_split read₂
  have behind₂ := (behind₁.behind split₂).behindToken rfl
  refine (below.expression behind₂ 0 _).andThen fun body rest₃ read₃ _ => ?_
  have split : Symbol.kwFun.at start :: rest =
      (Phrase.function start first more.1 more.2 body).tokens ++ rest₃ := by
    rw [split₁, split₂, readExpression_split read₃, Phrase.tokens]
    simp
  exact functions_agrees (inOrder_of_split remaining.part split) _

private theorem print_form_agrees
    (remaining : Remaining source (bound + 1) (Symbol.kwPrint.at start :: rest)) (arena : Arena) :
    (term source (ending source) (.at (Symbol.kwPrint.at start :: rest) arena)).Agrees source
      (storePhrase arena) (readTerm (Symbol.kwPrint.at start :: rest)) := by
  rw [readTerm_cons, State.at, List.map_cons, term]
  refine (below.expression remaining.tail 0 arena).andThen fun operand rest₁ read₁ _ => ?_
  have split : Symbol.kwPrint.at start :: rest =
      (Phrase.print start operand).tokens ++ rest₁ := by
    rw [readExpression_split read₁]
    rfl
  exact enclose_agrees (inOrder_of_split remaining.part split) rfl rfl _

private theorem conditional_form_agrees
    (remaining : Remaining source (bound + 1) (Symbol.kwIf.at start :: rest)) (arena : Arena) :
    (term source (ending source) (.at (Symbol.kwIf.at start :: rest) arena)).Agrees source
      (storePhrase arena) (readTerm (Symbol.kwIf.at start :: rest)) := by
  rw [readTerm_cons, State.at, List.map_cons, term]
  refine (below.expression remaining.tail 0 arena).andThen fun condition rest₁ read₁ _ => ?_
  refine (expect_agrees .kwThen rest₁ _).andThen fun thenAt rest₂ read₂ _ => ?_
  have split₁ := readExpression_split read₁
  have split₂ := readSymbol_split read₂
  have behind₂ := (remaining.tail.behind split₁).behindToken split₂
  refine (below.expression behind₂ 0 _).andThen fun yes rest₃ read₃ _ => ?_
  refine (expect_agrees .kwElse rest₃ _).andThen fun elseAt rest₄ read₄ _ => ?_
  have split₃ := readExpression_split read₃
  have split₄ := readSymbol_split read₄
  have behind₄ := (behind₂.behind split₃).behindToken split₄
  refine (below.expression behind₄ 0 _).andThen fun no rest₅ read₅ _ => ?_
  have split : Symbol.kwIf.at start :: rest =
      (Phrase.conditional start condition thenAt yes elseAt no).tokens ++ rest₅ := by
    rw [split₁, split₂, split₃, split₄, readExpression_split read₅, Phrase.tokens]
    simp
  exact enclose_agrees (inOrder_of_split remaining.part split) rfl rfl _

private theorem unary_form_agrees (op : UnaryOp)
    (remaining : Remaining source (bound + 1) (op.symbol.at start :: rest)) (arena : Arena) :
    (term source (ending source) (.at (op.symbol.at start :: rest) arena)).Agrees source
      (storePhrase arena) (readTerm (op.symbol.at start :: rest)) := by
  have split {operand : Phrase} {rest₁ : List Token}
      (read₁ : readExpression op.power rest = .ok (operand, rest₁)) :
      op.symbol.at start :: rest = (Phrase.unary op start operand).tokens ++ rest₁ := by
    rw [readExpression_split read₁]
    rfl
  rw [readTerm_cons, State.at, List.map_cons, term]
  cases op with
  | not =>
    exact (below.expression remaining.tail _ arena).andThen fun operand rest₁ read₁ _ =>
      prefixed_agrees .not (inOrder_of_split remaining.part (split read₁)) _
  | negate =>
    exact (below.expression remaining.tail _ arena).andThen fun operand rest₁ read₁ _ =>
      prefixed_agrees .negate (inOrder_of_split remaining.part (split read₁)) _

private theorem group_form_agrees
    (remaining : Remaining source (bound + 1) (Symbol.leftParen.at start :: rest))
    (arena : Arena) :
    (term source (ending source) (.at (Symbol.leftParen.at start :: rest) arena)).Agrees source
      (storePhrase arena) (readTerm (Symbol.leftParen.at start :: rest)) := by
  rw [readTerm_cons, State.at, List.map_cons, term]
  refine (below.expression remaining.tail 0 arena).andThen fun body rest₁ read₁ _ => ?_
  refine (expect_agrees .rightParen rest₁ _).andThen fun closing rest₂ read₂ _ => ?_
  have split : Symbol.leftParen.at start :: rest =
      (Phrase.group start body closing).tokens ++ rest₂ := by
    rw [readExpression_split read₁, readSymbol_split read₂, Phrase.tokens]
    simp
  exact grouped_agrees (inOrder_of_split remaining.part split) _

end Forms

include small below

theorem term_agrees (remaining : Remaining source (bound + 1) tokens) (arena : Arena) :
    (term source (ending source) (.at tokens arena)).Agrees source (storePhrase arena)
      (readTerm tokens) := by
  cases tokens with
  | nil =>
    rw [State.at, List.map_nil, term, readTerm_nil]
    rfl
  | cons token rest =>
    obtain ⟨lexeme, start⟩ := token
    have listed : ⟨lexeme, start⟩ ∈ Lexer.tokens source :=
      remaining.part.subset List.mem_cons_self
    cases lexeme with
    | integer | decimal | quoted =>
      rw [readTerm_cons, State.at, List.map_cons, term]
      exact constant_agrees small listed rfl _
    | identifier text =>
      have named : name source (Token.mk (.identifier text) start).placed = .ok ⟨text, start⟩ :=
        name_eq ⟨text, start⟩ listed
      rw [readTerm_cons, State.at, List.map_cons, term]
      change (check (name source (Token.mk (.identifier text) start).placed) _).Agrees _ _ _
      rw [check_ok named]
      exact push_agrees rfl _
    | invalid | endOfInput =>
      rw [readTerm_cons, State.at, List.map_cons, term]
      rfl
    | symbol fixed =>
      cases fixed with
      | kwTrue | kwFalse | kwUnit =>
        rw [readTerm_cons, State.at, List.map_cons, term]
        exact constant_agrees small listed rfl _
      | leftBrace => exact list_form_agrees below remaining arena
      | kwLet => exact letIn_form_agrees below remaining arena
      | kwFun => exact function_form_agrees below remaining arena
      | kwPrint => exact print_form_agrees below remaining arena
      | kwIf => exact conditional_form_agrees below remaining arena
      | kwNot => exact unary_form_agrees below .not remaining arena
      | leftParen => exact group_form_agrees below remaining arena
      | binary op =>
        cases op with
        | sub => exact unary_form_agrees below .negate remaining arena
        | _ =>
          rw [readTerm_cons, State.at, List.map_cons, term]
          rfl
      | _ =>
        rw [readTerm_cons, State.at, List.map_cons, term]
        rfl

theorem expression_agrees (remaining : Remaining source (bound + 1) tokens) (least : Nat)
    (arena : Arena) :
    (expression source (ending source) least (.at tokens arena)).Agrees source (storePhrase arena)
      (readExpression least tokens) := by
  rw [expression, readExpression_eq]
  refine (term_agrees small below remaining arena).andThen fun left rest read shorter => ?_
  have split := readTerm_split read
  exact below.continuations left (remaining.behindPhrase split) (split ▸ remaining.part) least arena
    _ shorter

private theorem continuations_agrees (left : Phrase)
    (remaining : Remaining source (bound + 1) tokens)
    (part : left.tokens ++ tokens <:+ Lexer.tokens source) (least : Nat) (arena : Arena)
    (origin : State)
    (shorter : (State.at tokens (storePhrase arena left).2).Behind origin) :
    (continuations source (ending source) origin least (storePhrase arena left).1
      (.at tokens (storePhrase arena left).2) shorter).Agrees source (storePhrase arena)
      (readContinuations least left tokens) := by
  rw [readContinuations_eq]
  cases tokens with
  | nil =>
    rw [continuations.eq_def]
    rfl
  | cons token rest =>
    -- the state must be seen as one with a first token for the reader to take its branch
    change State.Behind ⟨token.placed :: rest.map Token.placed, _⟩ _ at shorter
    change (continuations source (ending source) origin least (storePhrase arena left).1
      ⟨token.placed :: rest.map Token.placed, (storePhrase arena left).2⟩ shorter).Agrees _ _ _
    rw [continuations.eq_def]
    have behind := remaining.tail
    simp only [afterOperand, show token.placed.kind = token.kind from rfl]
    cases next : token.kind.continuation with
    | stop => rfl
    | misplaced => rfl
    | operator op =>
      by_cases low : op.power.left < least
      · simp only [if_pos low]
        rfl
      · simp only [if_neg low]
        refine (below.expression behind _ _).andThen fun right rest₁ read₁ _ => ?_
        have split₁ := readExpression_split read₁
        obtain ⟨lexeme, start⟩ := token
        cases lexeme_of_operator next
        have split : left.tokens ++ (Symbol.binary op).at start :: rest =
            (Phrase.binary left op start right).tokens ++ rest₁ := by
          rw [split₁, Phrase.tokens]
          simp
        have inOrder := inOrder_of_split part split
        rw [check_ok (between_eq [(Symbol.binary op).at start] arena inOrder)]
        exact below.continuations (.binary left op start right) (behind.behind split₁)
          (split ▸ part) least arena origin _
    | argument =>
      by_cases low : Power.application.left < least
      · simp only [if_pos low]
        rfl
      · simp only [if_neg low]
        refine (expression_agrees small below remaining _ _).andThen
          fun argument rest₁ read₁ _ => ?_
        have split₁ := readExpression_split read₁
        have split : left.tokens ++ token :: rest =
            (Phrase.application left argument).tokens ++ rest₁ := by
          rw [split₁, Phrase.tokens, List.append_assoc]
        have inOrder := inOrder_of_split part split
        rw [check_ok (between_eq [] arena inOrder)]
        exact below.continuations (.application left argument) (remaining.behindPhrase split₁)
          (split ▸ part) least arena origin _
    | subscript =>
      refine (below.expression behind 0 _).andThen fun index rest₁ read₁ _ => ?_
      refine (expect_agrees .rightBracket rest₁ _).andThen fun closing rest₂ read₂ _ => ?_
      have split₁ := readExpression_split read₁
      have split₂ := readSymbol_split read₂
      obtain ⟨lexeme, start⟩ := token
      cases lexeme_of_subscript next
      have split : left.tokens ++ Symbol.leftBracket.at start :: rest =
          (Phrase.subscript left start index closing).tokens ++ rest₂ := by
        rw [split₁, split₂, Phrase.tokens]
        simp
      have forwards : left.span.start < closing + 1 :=
        Phrase.span_start_lt_stop (inOrder_of_split part split)
      have sound : range left.span.start (Symbol.rightBracket.at closing).placed.span.stop =
          .ok ⟨(left.store arena none).span.start, closing + 1⟩ := by
        rw [store_span]
        exact range_eq (Nat.le_of_lt forwards)
      rw [check_ok (node_left left index arena), check_ok sound]
      exact below.continuations (.subscript left start index closing)
        ((behind.behind split₁).behindToken split₂) (split ▸ part) least arena origin _

private theorem items_agrees (remaining : Remaining source (bound + 1) tokens) (arena : Arena) :
    (items source (ending source) (.at tokens arena)).Agrees source (storeItems arena)
      (readItems tokens) := by
  cases tokens with
  | nil =>
    rw [readItems_nil, State.at, List.map_nil, items]
    rfl
  | cons token rest =>
    rw [readItems_cons, State.at, List.map_cons, items]
    by_cases brace : token.lexeme = .symbol .rightBrace
    · obtain ⟨lexeme, start⟩ := token
      cases brace
      rfl
    · rw [if_neg brace, if_neg (kind_ne_of_lexeme_ne brace)]
      refine (expression_agrees small below remaining 0 arena).andThen
        fun item rest₁ read₁ _ => ?_
      have behind₁ := remaining.behindPhrase (readExpression_split read₁)
      cases rest₁ with
      | nil => rfl
      | cons separator rest₂ =>
        simp only [afterItem]
        by_cases comma : separator.lexeme = .symbol .comma
        · obtain ⟨lexeme, start⟩ := separator
          cases comma
          exact (below.items (behind₁.behindToken rfl) _).andThen fun more rest₃ read₃ _ => rfl
        · by_cases last : separator.lexeme = .symbol .rightBrace
          · obtain ⟨lexeme, start⟩ := separator
            cases last
            rfl
          · change Agrees _ _ (ite (separator.placed.kind = TokenKind.symbol .comma) _
              (ite (separator.placed.kind = TokenKind.symbol .rightBrace) _ _)) _
            rw [if_neg comma, if_neg last, if_neg (kind_ne_of_lexeme_ne comma),
              if_neg (kind_ne_of_lexeme_ne last)]
            rfl

omit small in
private theorem bindings_agrees (remaining : Remaining source (bound + 1) tokens) (arena : Arena) :
    (bindings source (ending source) (.at tokens arena)).Agrees source (storeBindings arena)
      (readBindings tokens) := by
  rw [readBindings_eq, bindings]
  refine (identifier_agrees tokens arena).andThen fun name rest₁ read₁ _ => ?_
  refine (expect_agrees .assign rest₁ _).andThen fun assign rest₂ read₂ _ => ?_
  have split₁ := readName_split read₁
  have named : name.token ∈ Lexer.tokens source :=
    remaining.part.subset (split₁ ▸ List.mem_cons_self)
  have behind₁ : Remaining source bound rest₁ := (split₁ ▸ remaining).tail
  have behind₂ := behind₁.behindToken (readSymbol_split read₂)
  refine (below.expression behind₂ 0 _).andThen fun value rest₃ read₃ _ => ?_
  rw [check_ok (name_eq name named)]
  have behind₃ := behind₂.behind (readExpression_split read₃)
  cases rest₃ with
  | nil => rfl
  | cons separator rest₄ =>
    simp only [afterValue]
    by_cases comma : separator.lexeme = .symbol .comma
    · obtain ⟨lexeme, start⟩ := separator
      cases comma
      exact (below.bindings (behind₃.behindToken rfl) _).andThen fun more rest₅ read₅ _ => rfl
    · change Agrees _ _ (ite (separator.placed.kind = TokenKind.symbol .comma) _ _) _
      rw [if_neg comma, if_neg (kind_ne_of_lexeme_ne comma)]
      rfl

end Readers

/-- The induction on the bound, which all readers share because they call one another. -/
theorem agreesBelow {source : List Char} (small : Text.size source < UInt32.size) (bound : Nat) :
    AgreesBelow source bound := by
  induction bound with
  | zero =>
    exact {
      expression := fun remaining => absurd remaining.fewer (Nat.not_lt_zero _)
      continuations := fun _ remaining => absurd remaining.fewer (Nat.not_lt_zero _)
      items := fun remaining => absurd remaining.fewer (Nat.not_lt_zero _)
      bindings := fun remaining => absurd remaining.fewer (Nat.not_lt_zero _) }
  | succ bound below =>
    exact {
      expression := expression_agrees small below
      continuations := continuations_agrees small below
      items := items_agrees small below
      bindings := bindings_agrees below }

end ClamSyntax.Checked
