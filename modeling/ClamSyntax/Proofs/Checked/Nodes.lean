import ClamSyntax.Proofs.Arena.Roots
import ClamSyntax.Proofs.Checked.Reader
import ClamSyntax.Proofs.Parser.Split

namespace ClamSyntax

namespace Checked

open ClamSyntax.Parser

abbrev State.at (tokens : List Token) (arena : Arena) : State := ⟨tokens.map Token.placed, arena⟩

def ending (source : List Char) : Placed := (Token.atEnd (Text.size source)).placed

namespace Step

variable {origin target : State}

def outcome : Step α origin → Except Fault (Except SyntaxError (α × State))
  | .read value state _ => .ok (.ok (value, state))
  | .refused error => .ok (.error error)
  | .failed fault => .error fault

/-- The step has the outcome of the reading, with the value put into the store. -/
def Agrees (source : List Char) (put : α → β × Arena) (step : Step β origin)
    (reading : Reading α) : Prop :=
  step.outcome = .ok (match reading with
    | .ok (value, rest) => .ok ((put value).1, .at rest (put value).2)
    | .error stop => .error (stop.error (Text.size source)))

variable {source : List Char} {put : α → γ × Arena} {putNext : β → δ × Arena}

theorem Agrees.andThen {step : Step γ origin} {reading : Reading α}
    {next : γ → (state : State) → state.Behind origin → Step δ target}
    {nextReading : α → List Token → Reading β}
    (first : step.Agrees source put reading)
    (second : ∀ value rest, reading = .ok (value, rest) → ∀ shorter,
      (next (put value).1 (.at rest (put value).2) shorter).Agrees source putNext
        (nextReading value rest)) :
    (step.andThen next).Agrees source putNext (reading.andThen nextReading) := by
  cases reading with
  | error stop =>
    cases step with
    | read value state shorter => cases first
    | refused error =>
      cases first
      rfl
    | failed fault => cases first
  | ok found =>
    obtain ⟨value, rest⟩ := found
    cases step with
    | read value state shorter =>
      cases first
      exact second value rest rfl shorter
    | refused error => cases first
    | failed fault => cases first

theorem check_ok {operation : Except Fault α} {value : α} (sound : operation = .ok value)
    (next : α → Step β target) : check operation next = next value := by
  rw [sound]
  rfl

end Step

section Sources

variable {source : List Char}

private theorem slice_token {token : Token} (member : token ∈ Lexer.tokens source) :
    slice source token.span = .ok token.text := by
  obtain ⟨-, before, after, split, place⟩ :=
    (Lexer.tokensFrom_tiles 0 source).marks token member
  rw [split, place]
  exact slice_append ..

theorem name_eq (written : Name) (member : written.token ∈ Lexer.tokens source) :
    name source written.token.placed = .ok written := by
  have text : slice source written.token.placed.span = .ok written.text.toList :=
    slice_token member
  rw [name, text, ok_bind, String.ofList_toList]
  rfl

end Sources

open Step

section Tokens

variable {source : List Char}

theorem kind_ne_of_lexeme_ne {token : Token} {fixed : Symbol}
    (other : token.lexeme ≠ .symbol fixed) : token.placed.kind ≠ .symbol fixed := by
  obtain ⟨lexeme, start⟩ := token
  intro same
  cases lexeme with
  | symbol _ =>
    cases same
    exact other rfl
  | _ => cases same

theorem expect_agrees (fixed : Symbol) (tokens : List Token) (arena : Arena) :
    (expect (ending source) (.symbol fixed) (.at tokens arena)).Agrees source
      (fun start => ((fixed.at start).placed, arena)) (readSymbol fixed tokens) := by
  cases tokens with
  | nil => rfl
  | cons token rest =>
    obtain ⟨lexeme, start⟩ := token
    rw [readSymbol_cons]
    by_cases found : lexeme = .symbol fixed
    · subst found
      have kind : (Token.mk (.symbol fixed) start).placed.kind = .symbol fixed := rfl
      rw [if_pos rfl, Agrees, State.at, List.map_cons, expect, if_pos kind]
      rfl
    · rw [if_neg found, Agrees, State.at, List.map_cons, expect,
        if_neg (kind_ne_of_lexeme_ne found)]
      rfl

theorem identifier_agrees (tokens : List Token) (arena : Arena) :
    (expect (ending source) .identifier (.at tokens arena)).Agrees source
      (fun name => (name.token.placed, arena)) (readName tokens) := by
  cases tokens with
  | nil => rfl
  | cons token rest =>
    obtain ⟨lexeme, start⟩ := token
    rw [readName_cons]
    cases lexeme <;> rfl

theorem parameters_agrees {tokens : List Token} (arena : Arena)
    (part : tokens ⊆ Lexer.tokens source) :
    (parameters source (ending source) arena (tokens.map Token.placed)).Agrees source
      (fun more => (more.1, arena)) (readParameters tokens) := by
  induction tokens with
  | nil => rfl
  | cons token rest ih =>
    obtain ⟨here, behind⟩ := List.cons_subset.mp part
    obtain ⟨lexeme, start⟩ := token
    rw [readParameters_cons]
    cases lexeme with
    | symbol fixed => cases fixed <;> rfl
    | identifier text =>
      have kind : (Token.mk (.identifier text) start).placed.kind = .identifier := rfl
      have param : name source (Token.mk (.identifier text) start).placed = .ok ⟨text, start⟩ :=
        name_eq ⟨text, start⟩ here
      rw [List.map_cons, parameters, if_pos kind, check_ok param]
      exact (ih behind).andThen fun more rest₁ _ _ => rfl
    | _ => rfl

end Tokens

/-- The value is stored, and its node and the store are handed on. -/
def storePhrase (arena : Arena) (phrase : Phrase) : Nat × Arena :=
  ((phrase.store arena none).root, (phrase.store arena none).arena)

def storeItems (arena : Arena) (items : Items) : (List Nat × Placed) × Arena :=
  (((items.store arena).2.1, (Symbol.rightBrace.at (items.store arena).2.2).placed),
    (items.store arena).1)

def storeBindings (arena : Arena) (bindings : Bindings) : List LetBinding × Arena :=
  ((bindings.store arena).2, (bindings.store arena).1)

section Finish

variable {source : List Char} {rest : List Token} {whole last : Phrase} {arena before : Arena}
  {origin : State}

theorem node_root (phrase : Phrase) (arena : Arena) :
    node (storePhrase arena phrase).2 (storePhrase arena phrase).1 =
      .ok ⟨phrase.form arena.size, phrase.span⟩ := by
  have found := phrase.get?_root arena []
  rw [Arena.append_nil] at found
  exact node_eq found

theorem store_span (phrase : Phrase) (arena : Arena) :
    (phrase.store arena none).span = phrase.span := by
  rw [phrase.store_eq]
  rfl

theorem node_left (left right : Phrase) (arena : Arena) :
    node (storePhrase (storePhrase arena left).2 right).2 (storePhrase arena left).1 =
      .ok ⟨left.form arena.size, left.span⟩ := by
  have found := left.get?_root arena (right.nodes (left.store arena none).arena.size none)
  apply node_eq
  rw [storePhrase, right.store_eq]
  exact found

theorem between_eq {left right : Phrase} (mid : List Token) (arena : Arena)
    (inOrder : InOrder (left.tokens ++ (mid ++ right.tokens))) :
    between (storePhrase (storePhrase arena left).2 right).2 (storePhrase arena left).1
        (storePhrase (storePhrase arena left).2 right).1 =
      .ok ⟨(left.store arena none).span.start,
        (right.store (storePhrase arena left).2 none).span.stop⟩ := by
  rw [between, node_left, ok_bind, node_root, ok_bind, Phrase.cover_of_inOrder inOrder, store_span,
    store_span]
  rfl

/-- Pushing the node of a phrase whose parts are stored ends its storing. -/
theorem push_agrees {form : Form} {span : Span}
    (stored : whole.store arena none = before.add form span)
    (shorter : (State.at rest before).Behind origin) :
    (push form span (.at rest before) shorter).Agrees source (storePhrase arena)
      (.ok (whole, rest)) := by
  rw [Agrees, storePhrase, stored]
  rfl

/-- The same for a phrase that ends with its last part. -/
theorem enclose_agrees {start : Nat} {form : Form} (inOrder : InOrder whole.tokens)
    (extent : whole.span = ⟨start, last.span.stop⟩)
    (stored : whole.store arena none =
      (last.store before none).arena.add form ⟨start, (last.store before none).span.stop⟩)
    (shorter : (State.at rest (storePhrase before last).2).Behind origin) :
    (enclose start (storePhrase before last).1 form (.at rest (storePhrase before last).2)
      shorter).Agrees source (storePhrase arena) (.ok (whole, rest)) := by
  have forwards := Phrase.span_start_lt_stop inOrder
  rw [extent] at forwards
  rw [store_span] at stored
  rw [enclose, check_ok (node_root last before), check_ok (range_eq (Nat.le_of_lt forwards))]
  exact push_agrees stored shorter

theorem list_agrees {start : Nat} {items : Items}
    (inOrder : InOrder (Phrase.list start items).tokens)
    (shorter : (State.at rest (storeItems arena items).2).Behind origin) :
    (check (range start (storeItems arena items).1.2.span.stop) fun span =>
      push (.list (storeItems arena items).1.1) span (.at rest (storeItems arena items).2)
        shorter).Agrees source (storePhrase arena) (.ok (.list start items, rest)) := by
  have closes : (items.store arena).2.2 = items.closing := by rw [items.store_eq]
  have forwards : start ≤ (items.store arena).2.2 + 1 := by
    rw [closes]
    exact Nat.le_of_lt (Phrase.span_start_lt_stop inOrder)
  have sound : range start (storeItems arena items).1.2.span.stop = _ := range_eq forwards
  rw [check_ok sound]
  exact push_agrees rfl _

theorem functions_agrees {start : Nat} {first : Name} {more : List Name} {arrow : Nat}
    {body : Phrase} (inOrder : InOrder (Phrase.function start first more arrow body).tokens)
    (shorter : (State.at rest (storePhrase arena body).2).Behind origin) :
    (functions start (first :: more) (storePhrase arena body).1
      (.at rest (storePhrase arena body).2) shorter).Agrees source (storePhrase arena)
      (.ok (.function start first more arrow body, rest)) := by
  have forwards : start < body.span.stop := Phrase.span_start_lt_stop inOrder
  rw [functions, check_ok (node_root body arena), check_ok (range_eq (Nat.le_of_lt forwards)),
    List.reverse_cons, Arena.addFunctions_concat, ← store_span body arena]
  rfl

theorem prefixed_agrees (op : UnaryOp) {start : Nat} {operand : Phrase}
    (inOrder : InOrder (Phrase.unary op start operand).tokens)
    (shorter : (State.at rest (storePhrase arena operand).2).Behind origin) :
    (prefixed op (op.symbol.at start).placed.span (storePhrase arena operand).1
      (.at rest (storePhrase arena operand).2) shorter).Agrees source (storePhrase arena)
      (.ok (.unary op start operand, rest)) := by
  have forwards : start < operand.span.stop := Phrase.span_start_lt_stop inOrder
  have apart : (op.symbol.at start).stop ≤ operand.first.start :=
    List.rel_of_pairwise_cons inOrder.ordered operand.first_mem
  have positive : start < (op.symbol.at start).stop :=
    inOrder.extended (op.symbol.at start) List.mem_cons_self
  have extent := Phrase.span_start_lt_stop (inOrder.sublist (List.sublist_cons_self _ _))
  rw [← operand.span_start] at apart
  have covered : (op.symbol.at start).placed.span.cover operand.span =
      ⟨start, operand.span.stop⟩ := by
    change Span.mk (min start operand.span.start)
      (max (op.symbol.at start).stop operand.span.stop) = _
    rw [Nat.min_eq_left (by omega), Nat.max_eq_right (by omega)]
  rw [prefixed, check_ok (node_root operand arena), covered]
  apply push_agrees
  rw [← store_span operand arena]
  rfl

theorem grouped_agrees {start closing : Nat} {body : Phrase}
    (inOrder : InOrder (Phrase.group start body closing).tokens)
    (shorter : (State.at rest (storePhrase arena body).2).Behind origin) :
    (grouped start (Symbol.rightParen.at closing).placed.span.stop (storePhrase arena body).1
      (.at rest (storePhrase arena body).2) shorter).Agrees source (storePhrase arena)
      (.ok (.group start body closing, rest)) := by
  have forwards : start < closing + 1 := Phrase.span_start_lt_stop inOrder
  have inside := List.pairwise_cons.mp inOrder.ordered
  have before : (Symbol.leftParen.at start).stop ≤ body.first.start :=
    inside.1 _ (List.mem_append_left _ body.first_mem)
  have behind : body.last.stop ≤ closing :=
    (List.pairwise_append.mp inside.2).2.2 _ body.last_mem _ List.mem_cons_self
  have positive : start < (Symbol.leftParen.at start).stop :=
    inOrder.extended (Symbol.leftParen.at start) List.mem_cons_self
  rw [← body.span_start] at before
  rw [← body.span_stop] at behind
  have covers : body.span.cover ⟨start, closing + 1⟩ = ⟨start, closing + 1⟩ := by
    rw [Span.cover, Nat.min_eq_right (by simp only; omega), Nat.max_eq_right (by simp only; omega)]
  have present := body.get?_root arena []
  rw [Arena.append_nil] at present
  have sound : range start (Symbol.rightParen.at closing).placed.span.stop =
      .ok ⟨start, closing + 1⟩ := range_eq (Nat.le_of_lt forwards)
  have widened : widen (storePhrase arena body).2 (storePhrase arena body).1
      ⟨start, closing + 1⟩ = .ok (body.store arena (some ⟨start, closing + 1⟩)).arena :=
    (widen_eq _ present).trans (congrArg Except.ok (Phrase.widen_root covers arena))
  have root : (body.store arena none).root =
      (body.store arena (some ⟨start, closing + 1⟩)).root := by
    rw [body.store_eq, body.store_eq]
  rw [grouped, check_ok sound, check_ok widened, storePhrase, root]
  rfl

theorem constant_agrees {token : Token} {value : Except Literal.BadEscape Value}
    (small : Text.size source < UInt32.size) (listed : token ∈ Lexer.tokens source)
    (isLiteral : Literal.value? token.lexeme = some value)
    (shorter : (State.at rest arena).Behind origin) :
    (constant source token.placed (.at rest arena) shorter).Agrees source (storePhrase arena)
      (afterOpening token rest) := by
  have marks := (Lexer.tokensFrom_tiles 0 source).marks token listed
  have proper : token.lexeme.Proper := by
    rcases Lexer.tokens_proper source token listed with proper | ⟨text, invalid⟩
    · exact proper
    · rw [invalid] at isLiteral
      cases isLiteral
  rw [constant, check_ok (literal_eq marks proper isLiteral small), afterOpening,
    Phrase.opening_of_value isLiteral]
  cases value <;> rfl

end Finish

end Checked

end ClamSyntax
