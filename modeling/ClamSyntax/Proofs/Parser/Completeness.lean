import ClamSyntax.Proofs.Parser.Reading

namespace ClamSyntax.Parser

open Phrase (leftSpine Admits Yields Closed Releases)

/-- Reading the phrase's tokens at an admissible power arrives behind the whole phrase. -/
def ReadsBack (phrase : Phrase) : Prop :=
  ∀ least rest, (∀ part ∈ phrase.leftSpine, part.Admits least) →
    phrase.Releases (upcoming rest) →
    readExpression least (phrase.tokens ++ rest) = readContinuations least phrase rest

def ItemsReadBack (items : Items) : Prop :=
  ∀ rest, readItems (items.tokens ++ rest) = .ok (items, rest)

/-- Bindings go on as long as commas follow. -/
def BindingsReadBack (bindings : Bindings) : Prop :=
  ∀ token rest, token.kind.continuation = .stop → token.lexeme ≠ .symbol .comma →
    readBindings (bindings.tokens ++ token :: rest) = .ok (bindings, token :: rest)

private theorem readContinuations_of_stops {least : Nat} {rest : List Token} (phrase : Phrase)
    (stops : (upcoming rest).Stops least) :
    readContinuations least phrase rest = .ok (phrase, rest) := by
  rw [readContinuations_eq]
  cases rest with
  | nil => rfl
  | cons token rest =>
    simp only [upcoming] at stops
    simp only [afterOperand]
    cases meaning : token.kind.continuation with
    | operator op =>
      rw [meaning] at stops
      exact if_pos stops
    | argument =>
      rw [meaning] at stops
      exact if_pos stops
    | stop => rfl
    | subscript => rw [meaning] at stops; cases stops
    | misplaced => rw [meaning] at stops; cases stops

theorem ReadsBack.whole {phrase : Phrase} {least : Nat} {rest : List Token}
    (reads : ReadsBack phrase) (admits : ∀ part ∈ phrase.leftSpine, part.Admits least)
    (stops : (upcoming rest).Stops least) (releases : phrase.Releases (upcoming rest)) :
    readExpression least (phrase.tokens ++ rest) = .ok (phrase, rest) :=
  (reads least rest admits releases).trans (readContinuations_of_stops phrase stops)

theorem ReadsBack.operand {phrase : Phrase} (reads : ReadsBack phrase) (rest : List Token)
    (ends : upcoming rest = .stop) :
    readExpression 0 (phrase.tokens ++ rest) = .ok (phrase, rest) := by
  apply reads.whole (fun part _ => part.admits_zero)
  · rw [ends]
    trivial
  · rw [ends]
    trivial

/-- The last operand of a form is read to its end wherever the form is left alone. -/
theorem ReadsBack.last {phrase operand : Phrase} {power : Nat} {rest : List Token}
    (reads : ReadsBack operand) (releases : phrase.Releases (upcoming rest))
    (last : phrase.lastOperand? = some (power, operand))
    (admits : ∀ part ∈ operand.leftSpine, part.Admits power) :
    readExpression power (operand.tokens ++ rest) = .ok (operand, rest) := by
  obtain ⟨stops, inner⟩ := (Phrase.releases_iff_of_lastOperand last).mp releases
  exact reads.whole admits stops inner

theorem readsBack_of_term {phrase : Phrase}
    (read : ∀ rest, phrase.Releases (upcoming rest) →
      readTerm (phrase.tokens ++ rest) = .ok (phrase, rest)) : ReadsBack phrase := by
  intro least rest _ releases
  rw [readExpression_eq, read rest releases]
  rfl

theorem readsBack_literal {token : Token} {value : Value}
    (denotes : Literal.value? token.lexeme = some (.ok value)) :
    ReadsBack (.literal token value) := by
  apply readsBack_of_term
  intro rest _
  change readTerm (token :: rest) = _
  rw [readTerm_cons, afterOpening, Phrase.opening_of_value denotes]

theorem readsBack_name (name : Name) : ReadsBack (.name name) := by
  apply readsBack_of_term
  intro rest _
  change readTerm (name.token :: rest) = _
  rw [readTerm_cons]
  rfl

theorem readsBack_list {opening : Nat} {items : Items} (reads : ItemsReadBack items) :
    ReadsBack (.list opening items) := by
  apply readsBack_of_term
  intro rest _
  change readTerm (Symbol.leftBrace.at opening :: (items.tokens ++ rest)) = _
  rw [readTerm_cons]
  change (readItems (items.tokens ++ rest)).andThen _ = _
  rw [reads rest]
  rfl

theorem readsBack_print {opening : Nat} {operand : Phrase} (reads : ReadsBack operand) :
    ReadsBack (.print opening operand) := by
  apply readsBack_of_term
  intro rest releases
  change readTerm (Symbol.kwPrint.at opening :: (operand.tokens ++ rest)) = _
  rw [readTerm_cons]
  change (readExpression 0 (operand.tokens ++ rest)).andThen _ = _
  rw [reads.last releases rfl (fun part _ => part.admits_zero)]
  rfl

theorem readsBack_unary {op : UnaryOp} {opening : Nat} {operand : Phrase}
    (reads : ReadsBack operand) (admits : ∀ part ∈ operand.leftSpine, part.Admits op.power) :
    ReadsBack (.unary op opening operand) := by
  apply readsBack_of_term
  intro rest releases
  change readTerm (op.symbol.at opening :: (operand.tokens ++ rest)) = _
  have opens : (op.symbol.at opening).lexeme.opening = .unary op := by cases op <;> rfl
  rw [readTerm_cons]
  simp only [afterOpening, opens]
  rw [reads.last releases rfl admits]
  rfl

theorem readsBack_group {opening closing : Nat} {body : Phrase} (reads : ReadsBack body) :
    ReadsBack (.group opening body closing) := by
  apply readsBack_of_term
  intro rest _
  have body := reads.operand (Symbol.rightParen.at closing :: rest) rfl
  simp only [Phrase.tokens, List.cons_append, List.append_assoc, List.nil_append]
  rw [readTerm_cons]
  change (readExpression 0 (_ ++ _)).andThen _ = _
  rw [body]
  simp only [Reading.andThen, readSymbol_at]
  rfl

theorem readsBack_letIn {opening inAt : Nat} {bindings : Bindings} {body : Phrase}
    (bound : BindingsReadBack bindings) (reads : ReadsBack body) :
    ReadsBack (.letIn opening bindings inAt body) := by
  apply readsBack_of_term
  intro rest releases
  have before := bound (Symbol.kwIn.at inAt) (body.tokens ++ rest) rfl nofun
  simp only [Phrase.tokens, List.cons_append, List.append_assoc]
  rw [readTerm_cons]
  change (readBindings (_ ++ _)).andThen _ = _
  rw [before]
  simp only [Reading.andThen, readSymbol_at]
  rw [reads.last releases rfl (fun part _ => part.admits_zero)]
  rfl

private theorem readParameters_tokens (more : List Name) (arrow : Nat) (rest : List Token) :
    readParameters (more.map Name.token ++ Symbol.arrow.at arrow :: rest) =
      .ok ((more, arrow), rest) := by
  induction more with
  | nil =>
    simp only [List.map_nil, List.nil_append]
    rw [readParameters_cons]
    rfl
  | cons name more ih =>
    simp only [List.map_cons, List.cons_append]
    rw [readParameters_cons]
    simp only [Name.token]
    rw [ih]
    rfl

theorem readsBack_function {opening arrow : Nat} {first : Name} {more : List Name}
    {body : Phrase} (reads : ReadsBack body) :
    ReadsBack (.function opening first more arrow body) := by
  apply readsBack_of_term
  intro rest releases
  simp only [Phrase.tokens, List.cons_append, List.append_assoc]
  have opens : (Symbol.kwFun.at opening).lexeme.opening = .function := rfl
  rw [readTerm_cons]
  simp only [afterOpening, opens, readName_cons, Name.token, Reading.andThen]
  rw [readParameters_tokens]
  simp only
  rw [reads.last releases rfl (fun part _ => part.admits_zero)]
  rfl

theorem readsBack_conditional {opening thenAt elseAt : Nat} {condition yes no : Phrase}
    (first : ReadsBack condition) (second : ReadsBack yes) (third : ReadsBack no) :
    ReadsBack (.conditional opening condition thenAt yes elseAt no) := by
  apply readsBack_of_term
  intro rest releases
  simp only [Phrase.tokens, List.cons_append, List.append_assoc]
  rw [readTerm_cons]
  change (readExpression 0 (_ ++ _)).andThen _ = _
  rw [first.operand _ rfl]
  simp only [Reading.andThen, readSymbol_at]
  rw [second.operand _ rfl]
  simp only [readSymbol_at]
  rw [third.last releases rfl (fun part _ => part.admits_zero)]
  rfl

theorem readsBack_binary {left right : Phrase} {op : BinaryOp} {place : Nat}
    (first : ReadsBack left) (second : ReadsBack right)
    (yields : ∀ part ∈ left.rightSpine, part.Yields op.power.left)
    (admits : ∀ part ∈ right.leftSpine, part.Admits op.power.right) :
    ReadsBack (.binary left op place right) := by
  intro least rest fits releases
  rw [leftSpine, List.forall_mem_cons] at fits
  have behind := first least ((Symbol.binary op).at place :: (right.tokens ++ rest)) fits.2 yields
  have operand := second.last releases rfl admits
  have high : ¬ op.power.left < least := Nat.not_lt.mpr fits.1
  simp only [Phrase.tokens, List.append_assoc, List.cons_append]
  rw [behind, readContinuations_eq]
  change (if op.power.left < least then _ else (readExpression op.power.right _).andThen _) = _
  rw [if_neg high, operand]
  rfl

theorem readsBack_application {callee argument : Phrase} (first : ReadsBack callee)
    (second : ReadsBack argument) (grammatical : argument.Grammatical)
    (yields : ∀ part ∈ callee.rightSpine, part.Yields Power.application.left)
    (admits : ∀ part ∈ argument.leftSpine, part.Admits Power.application.right)
    (noNegation : ¬ argument.IsNegation) : ReadsBack (.application callee argument) := by
  intro least rest fits releases
  rw [leftSpine, List.forall_mem_cons] at fits
  obtain ⟨more, same⟩ := argument.exists_tokens_eq_cons
  have begins : argument.first.kind.continuation = .argument :=
    Lexeme.continuation_of_opening grammatical.first_opens
      (grammatical.first_ne_minus admits noNegation)
  have behind := first least (argument.tokens ++ rest) fits.2
    (by rw [same, List.cons_append, upcoming, begins]; exact yields)
  have operand := second.last releases rfl admits
  have high : ¬ Power.application.left < least := Nat.not_lt.mpr fits.1
  simp only [Phrase.tokens, List.append_assoc]
  rw [behind, readContinuations_eq]
  rw [same, List.cons_append] at operand ⊢
  simp only [afterOperand, begins]
  rw [if_neg high, operand]
  rfl

theorem readsBack_subscript {target index : Phrase} {opening closing : Nat}
    (first : ReadsBack target) (second : ReadsBack index) (closed : target.Closed) :
    ReadsBack (.subscript target opening index closing) := by
  intro least rest fits _
  rw [leftSpine, List.forall_mem_cons] at fits
  have behind := first least (Symbol.leftBracket.at opening ::
    (index.tokens ++ Symbol.rightBracket.at closing :: rest)) fits.2 (closed.releases _)
  simp only [Phrase.tokens, List.append_assoc, List.cons_append, List.nil_append]
  rw [behind, readContinuations_eq]
  change (readExpression 0 (_ ++ _)).andThen _ = _
  rw [second.operand _ rfl]
  simp only [Reading.andThen, readSymbol_at]
  rfl

theorem itemsReadBack_close (closing : Nat) : ItemsReadBack (.close closing) := by
  intro rest
  change readItems (Symbol.rightBrace.at closing :: rest) = _
  rw [readItems_cons]
  rfl

/-- What begins a phrase is no closing brace, so reading items goes on to an item. -/
theorem readItems_tokens {item : Phrase} {rest : List Token} (reads : ReadsBack item)
    (grammatical : item.Grammatical) (ends : upcoming rest = .stop) :
    readItems (item.tokens ++ rest) = afterItem item rest := by
  obtain ⟨more, same⟩ := item.exists_tokens_eq_cons
  have noBrace : item.first.lexeme ≠ .symbol .rightBrace := by
    intro brace
    apply grammatical.first_opens
    rw [brace]
    rfl
  have operand := reads.operand rest ends
  rw [same, List.cons_append] at operand ⊢
  rw [readItems_cons, if_neg noBrace, operand]
  rfl

theorem itemsReadBack_last {item : Phrase} {closing : Nat} (reads : ReadsBack item)
    (grammatical : item.Grammatical) : ItemsReadBack (.last item closing) := by
  intro rest
  simp only [Items.tokens, List.append_assoc, List.cons_append, List.nil_append]
  rw [readItems_tokens reads grammatical rfl]
  rfl

theorem itemsReadBack_more {item : Phrase} {comma : Nat} {more : Items} (reads : ReadsBack item)
    (grammatical : item.Grammatical) (others : ItemsReadBack more) :
    ItemsReadBack (.more item comma more) := by
  intro rest
  simp only [Items.tokens, List.append_assoc, List.cons_append]
  rw [readItems_tokens reads grammatical rfl]
  change (readItems _).andThen _ = _
  rw [others rest]
  rfl

theorem readBindings_tokens {value : Phrase} (name : Name) (assign : Nat) (rest : List Token)
    (reads : ReadsBack value) (ends : upcoming rest = .stop) :
    readBindings (name.token :: Symbol.assign.at assign :: (value.tokens ++ rest)) =
      afterValue name assign value rest := by
  rw [readBindings_eq, readName_cons]
  simp only [Name.token, Reading.andThen, readSymbol_at]
  rw [reads.operand rest ends]

theorem bindingsReadBack_last {name : Name} {assign : Nat} {value : Phrase}
    (reads : ReadsBack value) : BindingsReadBack (.last name assign value) := by
  intro token rest ends noComma
  simp only [Bindings.tokens, List.cons_append]
  rw [readBindings_tokens name assign (token :: rest) reads ends]
  exact if_neg noComma

theorem bindingsReadBack_more {name : Name} {assign comma : Nat} {value : Phrase}
    {more : Bindings} (reads : ReadsBack value) (others : BindingsReadBack more) :
    BindingsReadBack (.more name assign value comma more) := by
  intro token rest ends noComma
  simp only [Bindings.tokens, List.cons_append, List.append_assoc]
  rw [readBindings_tokens name assign _ reads rfl]
  change (readBindings _).andThen _ = _
  rw [others token rest ends noComma]
  rfl

mutual

/-- Reading gives every grammatical phrase back from its tokens. -/
theorem readsBack_of_grammatical :
    ∀ {phrase : Phrase}, phrase.Grammatical → ReadsBack phrase
  | .literal .., grammatical => readsBack_literal grammatical
  | .name name, _ => readsBack_name name
  | .list .., grammatical => readsBack_list (itemsReadBack_of_grammatical grammatical)
  | .letIn .., ⟨bindings, body⟩ =>
    readsBack_letIn (bindingsReadBack_of_grammatical bindings) (readsBack_of_grammatical body)
  | .function .., body => readsBack_function (readsBack_of_grammatical body)
  | .print .., operand => readsBack_print (readsBack_of_grammatical operand)
  | .conditional .., ⟨condition, yes, no⟩ =>
    readsBack_conditional (readsBack_of_grammatical condition) (readsBack_of_grammatical yes)
      (readsBack_of_grammatical no)
  | .unary .., ⟨operand, admits⟩ => readsBack_unary (readsBack_of_grammatical operand) admits
  | .group .., body => readsBack_group (readsBack_of_grammatical body)
  | .binary .., ⟨left, right, yields, admits⟩ =>
    readsBack_binary (readsBack_of_grammatical left) (readsBack_of_grammatical right)
      yields admits
  | .application .., ⟨callee, argument, yields, admits, noNegation⟩ =>
    readsBack_application (readsBack_of_grammatical callee) (readsBack_of_grammatical argument)
      argument yields admits noNegation
  | .subscript .., ⟨target, index, closed⟩ =>
    readsBack_subscript (readsBack_of_grammatical target) (readsBack_of_grammatical index) closed

theorem itemsReadBack_of_grammatical :
    ∀ {items : Items}, items.Grammatical → ItemsReadBack items
  | .close closing, _ => itemsReadBack_close closing
  | .last .., item => itemsReadBack_last (readsBack_of_grammatical item) item
  | .more .., ⟨item, others⟩ =>
    itemsReadBack_more (readsBack_of_grammatical item) item (itemsReadBack_of_grammatical others)

theorem bindingsReadBack_of_grammatical :
    ∀ {bindings : Bindings}, bindings.Grammatical → BindingsReadBack bindings
  | .last .., value => bindingsReadBack_last (readsBack_of_grammatical value)
  | .more .., ⟨value, others⟩ =>
    bindingsReadBack_more (readsBack_of_grammatical value)
      (bindingsReadBack_of_grammatical others)

end

/-- A grammatical phrase is the program that its tokens spell. -/
theorem readProgram_tokens {phrase : Phrase} (grammatical : phrase.Grammatical) :
    readProgram phrase.tokens = .ok phrase := by
  have whole := (readsBack_of_grammatical grammatical).operand [] rfl
  rw [List.append_nil] at whole
  rw [readProgram_eq, whole]

end ClamSyntax.Parser
