import ClamSyntax.Proofs.Phrase.Grammar

namespace ClamSyntax

def Token.relocate (move : Nat → Nat) (token : Token) : Token := ⟨token.lexeme, move token.start⟩

def Name.relocate (move : Nat → Nat) (name : Name) : Name := ⟨name.text, move name.start⟩

theorem Symbol.at_relocate (move : Nat → Nat) (fixed : Symbol) (start : Nat) :
    (fixed.at start).relocate move = fixed.at (move start) := rfl

theorem Name.token_relocate (move : Nat → Nat) (name : Name) :
    name.token.relocate move = (name.relocate move).token := rfl

mutual

def Phrase.relocate (move : Nat → Nat) : Phrase → Phrase
  | .literal token value => .literal (token.relocate move) value
  | .name name => .name (name.relocate move)
  | .list opening items => .list (move opening) (items.relocate move)
  | .letIn opening bindings inAt body =>
    .letIn (move opening) (bindings.relocate move) (move inAt) (body.relocate move)
  | .function opening first more arrow body =>
    .function (move opening) (first.relocate move) (more.map (Name.relocate move)) (move arrow)
      (body.relocate move)
  | .print opening operand => .print (move opening) (operand.relocate move)
  | .conditional opening condition thenAt yes elseAt no =>
    .conditional (move opening) (condition.relocate move) (move thenAt) (yes.relocate move)
      (move elseAt) (no.relocate move)
  | .unary op opening operand => .unary op (move opening) (operand.relocate move)
  | .group opening body closing => .group (move opening) (body.relocate move) (move closing)
  | .binary left op place right =>
    .binary (left.relocate move) op (move place) (right.relocate move)
  | .application callee argument => .application (callee.relocate move) (argument.relocate move)
  | .subscript target opening index closing =>
    .subscript (target.relocate move) (move opening) (index.relocate move) (move closing)

def Items.relocate (move : Nat → Nat) : Items → Items
  | .close closing => .close (move closing)
  | .last item closing => .last (item.relocate move) (move closing)
  | .more item comma rest => .more (item.relocate move) (move comma) (rest.relocate move)

def Bindings.relocate (move : Nat → Nat) : Bindings → Bindings
  | .last name assign value => .last (name.relocate move) (move assign) (value.relocate move)
  | .more name assign value comma rest =>
    .more (name.relocate move) (move assign) (value.relocate move) (move comma)
      (rest.relocate move)

end

mutual

theorem Phrase.tokens_relocate (move : Nat → Nat) : ∀ phrase : Phrase,
    (phrase.relocate move).tokens = phrase.tokens.map (Token.relocate move)
  | .literal .. | .name _ => rfl
  | .list _ items => congrArg (_ :: ·) (items.tokens_relocate move)
  | .letIn _ bindings _ body => by
    simp only [Phrase.relocate, Phrase.tokens, bindings.tokens_relocate, body.tokens_relocate,
      List.map_cons, List.map_append]
    rfl
  | .function _ _ more _ body => by
    simp only [Phrase.relocate, Phrase.tokens, body.tokens_relocate, List.map_cons,
      List.map_append, List.map_map]
    rfl
  | .print _ operand | .unary _ _ operand => congrArg (_ :: ·) (operand.tokens_relocate move)
  | .conditional _ condition _ yes _ no => by
    simp only [Phrase.relocate, Phrase.tokens, condition.tokens_relocate, yes.tokens_relocate,
      no.tokens_relocate, List.map_cons, List.map_append]
    rfl
  | .group _ body _ => by
    simp only [Phrase.relocate, Phrase.tokens, body.tokens_relocate, List.map_cons, List.map_append]
    rfl
  | .binary first _ _ second | .subscript first _ second _ => by
    simp only [Phrase.relocate, Phrase.tokens, first.tokens_relocate, second.tokens_relocate,
      List.map_cons, List.map_append]
    rfl
  | .application callee argument => by
    simp only [Phrase.relocate, Phrase.tokens, callee.tokens_relocate, argument.tokens_relocate,
      List.map_append]

theorem Items.tokens_relocate (move : Nat → Nat) : ∀ items : Items,
    (items.relocate move).tokens = items.tokens.map (Token.relocate move)
  | .close _ => rfl
  | .last item _ => by
    simp only [Items.relocate, Items.tokens, item.tokens_relocate, List.map_append]
    rfl
  | .more item _ rest => by
    simp only [Items.relocate, Items.tokens, item.tokens_relocate, rest.tokens_relocate,
      List.map_cons, List.map_append]
    rfl

theorem Bindings.tokens_relocate (move : Nat → Nat) : ∀ bindings : Bindings,
    (bindings.relocate move).tokens = bindings.tokens.map (Token.relocate move)
  | .last _ _ value => congrArg (_ :: _ :: ·) (value.tokens_relocate move)
  | .more _ _ value _ rest => by
    simp only [Bindings.relocate, Bindings.tokens, value.tokens_relocate, rest.tokens_relocate,
      List.map_cons, List.map_append]
    rfl

end

namespace Phrase

variable {move : Nat → Nat}

private theorem leftSpine_relocate (phrase : Phrase) :
    (phrase.relocate move).leftSpine = phrase.leftSpine.map (relocate move) := by
  cases phrase with
  | binary operand | application operand | subscript operand =>
    exact congrArg (_ :: ·) operand.leftSpine_relocate
  | _ => rfl

private theorem rightSpine_relocate (phrase : Phrase) :
    (phrase.relocate move).rightSpine = phrase.rightSpine.map (relocate move) := by
  cases phrase with
  | binary _ _ _ operand | application _ operand | unary _ _ operand | letIn _ _ _ operand
  | function _ _ _ _ operand | print _ operand | conditional _ _ _ _ _ operand =>
    exact congrArg (_ :: ·) operand.rightSpine_relocate
  | _ => rfl

private theorem admits_relocate (power : Nat) (phrase : Phrase) :
    (phrase.relocate move).Admits power ↔ phrase.Admits power := by
  cases phrase <;> exact Iff.rfl

private theorem yields_relocate (power : Nat) (phrase : Phrase) :
    (phrase.relocate move).Yields power ↔ phrase.Yields power := by
  cases phrase with
  | unary op => cases op <;> exact Iff.rfl
  | _ => exact Iff.rfl

theorem closed_relocate (phrase : Phrase) : (phrase.relocate move).Closed ↔ phrase.Closed := by
  cases phrase <;> exact Iff.rfl

theorem isNegation_relocate (phrase : Phrase) :
    (phrase.relocate move).IsNegation ↔ phrase.IsNegation := by
  cases phrase with
  | unary op => cases op <;> exact Iff.rfl
  | _ => exact Iff.rfl

theorem leftSpine_admits_relocate (power : Nat) (phrase : Phrase) :
    (∀ part ∈ (phrase.relocate move).leftSpine, part.Admits power) ↔
      ∀ part ∈ phrase.leftSpine, part.Admits power := by
  simp only [leftSpine_relocate, List.forall_mem_map, admits_relocate]

theorem rightSpine_yields_relocate (power : Nat) (phrase : Phrase) :
    (∀ part ∈ (phrase.relocate move).rightSpine, part.Yields power) ↔
      ∀ part ∈ phrase.rightSpine, part.Yields power := by
  simp only [rightSpine_relocate, List.forall_mem_map, yields_relocate]

end Phrase

mutual

theorem Phrase.grammatical_relocate (move : Nat → Nat) : ∀ phrase : Phrase,
    (phrase.relocate move).Grammatical ↔ phrase.Grammatical
  | .literal .. | .name _ => Iff.rfl
  | .list _ items => items.grammatical_relocate move
  | .letIn _ bindings _ body =>
    and_congr (bindings.grammatical_relocate move) (body.grammatical_relocate move)
  | .function _ _ _ _ body => body.grammatical_relocate move
  | .print _ operand => operand.grammatical_relocate move
  | .conditional _ condition _ yes _ no =>
    and_congr (condition.grammatical_relocate move)
      (and_congr (yes.grammatical_relocate move) (no.grammatical_relocate move))
  | .unary op _ operand =>
    and_congr (operand.grammatical_relocate move)
      (Phrase.leftSpine_admits_relocate op.power operand)
  | .group _ body _ => body.grammatical_relocate move
  | .binary left op _ right =>
    and_congr (left.grammatical_relocate move) (and_congr (right.grammatical_relocate move)
      (and_congr (Phrase.rightSpine_yields_relocate op.power.left left)
        (Phrase.leftSpine_admits_relocate op.power.right right)))
  | .application callee argument =>
    and_congr (callee.grammatical_relocate move) (and_congr (argument.grammatical_relocate move)
      (and_congr (Phrase.rightSpine_yields_relocate Power.application.left callee)
        (and_congr (Phrase.leftSpine_admits_relocate Power.application.right argument)
          (not_congr argument.isNegation_relocate))))
  | .subscript target _ index _ =>
    and_congr (target.grammatical_relocate move)
      (and_congr (index.grammatical_relocate move) target.closed_relocate)

theorem Items.grammatical_relocate (move : Nat → Nat) : ∀ items : Items,
    (items.relocate move).Grammatical ↔ items.Grammatical
  | .close _ => Iff.rfl
  | .last item _ => item.grammatical_relocate move
  | .more item _ rest =>
    and_congr (item.grammatical_relocate move) (rest.grammatical_relocate move)

theorem Bindings.grammatical_relocate (move : Nat → Nat) : ∀ bindings : Bindings,
    (bindings.relocate move).Grammatical ↔ bindings.Grammatical
  | .last _ _ value => value.grammatical_relocate move
  | .more _ _ value _ rest =>
    and_congr (value.grammatical_relocate move) (rest.grammatical_relocate move)

end

/-- The phrases have one form and differ in their offsets only. -/
abbrev Phrase.Alike (first second : Phrase) : Prop :=
  first.relocate (fun _ => 0) = second.relocate (fun _ => 0)

abbrev Items.Alike (first second : Items) : Prop :=
  first.relocate (fun _ => 0) = second.relocate (fun _ => 0)

abbrev Bindings.Alike (first second : Bindings) : Prop :=
  first.relocate (fun _ => 0) = second.relocate (fun _ => 0)

theorem Phrase.Alike.grammatical {first second : Phrase} (alike : first.Alike second)
    (grammatical : second.Grammatical) : first.Grammatical := by
  rw [← Phrase.grammatical_relocate fun _ => 0] at grammatical ⊢
  rw [alike]
  exact grammatical

section Lexemes

variable {tokens : List Token}

private theorem split_first (fixed : Symbol) (start : Nat) (after : List Token)
    (same : tokens.map Token.lexeme = (fixed.at start :: after).map Token.lexeme) :
    ∃ place rest, tokens = fixed.at place :: rest ∧
      rest.map Token.lexeme = after.map Token.lexeme := by
  obtain ⟨⟨lexeme, place⟩, rest, rfl, sameToken, sameRest⟩ := List.map_eq_cons_iff.mp same
  cases sameToken
  exact ⟨place, rest, rfl, sameRest⟩

private theorem split_at (before : List Token) (fixed : Symbol) (start : Nat) (after : List Token)
    (same : tokens.map Token.lexeme =
      (before ++ fixed.at start :: after).map Token.lexeme) :
    ∃ first place rest, tokens = first ++ fixed.at place :: rest ∧
      first.map Token.lexeme = before.map Token.lexeme ∧
      rest.map Token.lexeme = after.map Token.lexeme := by
  rw [List.map_append] at same
  obtain ⟨first, others, rfl, sameFirst, sameOthers⟩ := List.map_eq_append_iff.mp same
  obtain ⟨place, rest, rfl, sameRest⟩ := split_first fixed start after sameOthers
  exact ⟨first, place, rest, rfl, sameFirst, sameRest⟩

private theorem split_name (name : Name) (after : List Token)
    (same : tokens.map Token.lexeme = (name.token :: after).map Token.lexeme) :
    ∃ place rest, tokens = Name.token ⟨name.text, place⟩ :: rest ∧
      rest.map Token.lexeme = after.map Token.lexeme := by
  obtain ⟨⟨lexeme, place⟩, rest, rfl, sameToken, sameRest⟩ := List.map_eq_cons_iff.mp same
  cases sameToken
  exact ⟨place, rest, rfl, sameRest⟩

private theorem split_names (names : List Name)
    (same : tokens.map Token.lexeme = (names.map Name.token).map Token.lexeme) :
    ∃ others : List Name, tokens = others.map Name.token ∧
      others.map (Name.relocate fun _ => 0) = names.map (Name.relocate fun _ => 0) := by
  induction names generalizing tokens with
  | nil => exact ⟨[], List.map_eq_nil_iff.mp same, rfl⟩
  | cons name names ih =>
    obtain ⟨place, rest, rfl, sameRest⟩ := split_name name _ same
    obtain ⟨others, rfl, alike⟩ := ih sameRest
    exact ⟨⟨name.text, place⟩ :: others, rfl, congrArg (_ :: ·) alike⟩

end Lexemes

mutual

/-- Tokens with the lexemes of a phrase make up a phrase of the same form. -/
theorem Phrase.exists_alike : ∀ (phrase : Phrase) (tokens : List Token),
    tokens.map Token.lexeme = phrase.tokens.map Token.lexeme →
      ∃ other : Phrase, other.tokens = tokens ∧ other.Alike phrase
  | .literal token value, tokens, same => by
    obtain ⟨⟨lexeme, place⟩, rest, rfl, sameToken, none⟩ := List.map_eq_cons_iff.mp same
    obtain rfl := List.map_eq_nil_iff.mp none
    cases sameToken
    exact ⟨.literal ⟨token.lexeme, place⟩ value, rfl, rfl⟩
  | .name name, tokens, same => by
    obtain ⟨place, rest, rfl, none⟩ := split_name name [] same
    obtain rfl := List.map_eq_nil_iff.mp none
    exact ⟨.name ⟨name.text, place⟩, rfl, rfl⟩
  | .list opening items, tokens, same => by
    obtain ⟨opening', rest, rfl, sameRest⟩ := split_first .leftBrace opening items.tokens same
    obtain ⟨items', rfl, alike⟩ := items.exists_alike rest sameRest
    exact ⟨.list opening' items', rfl, congrArg (Phrase.list 0) alike⟩
  | .print opening operand, tokens, same => by
    obtain ⟨opening', rest, rfl, sameRest⟩ := split_first .kwPrint opening operand.tokens same
    obtain ⟨operand', rfl, alike⟩ := operand.exists_alike rest sameRest
    exact ⟨.print opening' operand', rfl, congrArg (Phrase.print 0) alike⟩
  | .unary op opening operand, tokens, same => by
    obtain ⟨opening', rest, rfl, sameRest⟩ := split_first op.symbol opening operand.tokens same
    obtain ⟨operand', rfl, alike⟩ := operand.exists_alike rest sameRest
    exact ⟨.unary op opening' operand', rfl, congrArg (Phrase.unary op 0) alike⟩
  | .letIn opening bindings inAt body, tokens, same => by
    obtain ⟨opening', rest, rfl, sameRest⟩ := split_first .kwLet opening
      (bindings.tokens ++ Symbol.kwIn.at inAt :: body.tokens) same
    obtain ⟨first, inAt', last, rfl, sameFirst, sameLast⟩ := split_at _ .kwIn inAt _ sameRest
    obtain ⟨bindings', rfl, alike⟩ := bindings.exists_alike first sameFirst
    obtain ⟨body', rfl, alikeBody⟩ := body.exists_alike last sameLast
    exact ⟨.letIn opening' bindings' inAt' body', rfl,
      by simp only [Phrase.Alike, Phrase.relocate, alike, alikeBody]⟩
  | .function opening first more arrow body, tokens, same => by
    obtain ⟨opening', rest, rfl, sameRest⟩ := split_first .kwFun opening
      (first.token :: (more.map Name.token ++ Symbol.arrow.at arrow :: body.tokens)) same
    obtain ⟨place, others, rfl, sameOthers⟩ := split_name first _ sameRest
    obtain ⟨params, arrow', last, rfl, sameParams, sameLast⟩ :=
      split_at (more.map Name.token) .arrow arrow body.tokens sameOthers
    obtain ⟨more', rfl, alike⟩ := split_names more sameParams
    obtain ⟨body', rfl, alikeBody⟩ := body.exists_alike last sameLast
    exact ⟨.function opening' ⟨first.text, place⟩ more' arrow' body', rfl,
      by simp only [Phrase.Alike, Phrase.relocate, Name.relocate, alike, alikeBody]⟩
  | .conditional opening condition thenAt yes elseAt no, tokens, same => by
    obtain ⟨opening', rest, rfl, sameRest⟩ := split_first .kwIf opening
      (condition.tokens ++ Symbol.kwThen.at thenAt ::
        (yes.tokens ++ Symbol.kwElse.at elseAt :: no.tokens)) same
    obtain ⟨first, thenAt', rest, rfl, sameFirst, sameRest⟩ := split_at _ .kwThen thenAt _ sameRest
    obtain ⟨second, elseAt', third, rfl, sameSecond, sameThird⟩ :=
      split_at _ .kwElse elseAt _ sameRest
    obtain ⟨condition', rfl, alike₁⟩ := condition.exists_alike first sameFirst
    obtain ⟨yes', rfl, alike₂⟩ := yes.exists_alike second sameSecond
    obtain ⟨no', rfl, alike₃⟩ := no.exists_alike third sameThird
    refine ⟨.conditional opening' condition' thenAt' yes' elseAt' no', rfl, ?_⟩
    simp only [Phrase.Alike, Phrase.relocate] at alike₁ alike₂ alike₃ ⊢
    rw [alike₁, alike₂, alike₃]
  | .group opening body closing, tokens, same => by
    obtain ⟨opening', rest, rfl, sameRest⟩ := split_first .leftParen opening
      (body.tokens ++ [Symbol.rightParen.at closing]) same
    obtain ⟨inner, closing', rest, rfl, sameInner, none⟩ :=
      split_at _ .rightParen closing [] sameRest
    obtain rfl := List.map_eq_nil_iff.mp none
    obtain ⟨body', rfl, alike⟩ := body.exists_alike inner sameInner
    exact ⟨.group opening' body' closing', rfl, congrArg (Phrase.group 0 · 0) alike⟩
  | .binary left op place right, tokens, same => by
    obtain ⟨first, place', last, rfl, sameFirst, sameLast⟩ :=
      split_at left.tokens (.binary op) place right.tokens same
    obtain ⟨left', rfl, alike⟩ := left.exists_alike first sameFirst
    obtain ⟨right', rfl, alikeRight⟩ := right.exists_alike last sameLast
    exact ⟨.binary left' op place' right', rfl,
      by simp only [Phrase.Alike, Phrase.relocate, alike, alikeRight]⟩
  | .application callee argument, tokens, same => by
    simp only [Phrase.tokens, List.map_append] at same
    obtain ⟨first, last, rfl, sameFirst, sameLast⟩ := List.map_eq_append_iff.mp same
    obtain ⟨callee', rfl, alike⟩ := callee.exists_alike first sameFirst
    obtain ⟨argument', rfl, alikeLast⟩ := argument.exists_alike last sameLast
    exact ⟨.application callee' argument', rfl,
      by simp only [Phrase.Alike, Phrase.relocate, alike, alikeLast]⟩
  | .subscript target opening index closing, tokens, same => by
    obtain ⟨first, opening', rest, rfl, sameFirst, sameRest⟩ := split_at target.tokens
      .leftBracket opening (index.tokens ++ [Symbol.rightBracket.at closing]) same
    obtain ⟨inner, closing', rest, rfl, sameInner, none⟩ :=
      split_at _ .rightBracket closing [] sameRest
    obtain rfl := List.map_eq_nil_iff.mp none
    obtain ⟨target', rfl, alike⟩ := target.exists_alike first sameFirst
    obtain ⟨index', rfl, alikeIndex⟩ := index.exists_alike inner sameInner
    exact ⟨.subscript target' opening' index' closing', rfl,
      by simp only [Phrase.Alike, Phrase.relocate, alike, alikeIndex]⟩

theorem Items.exists_alike : ∀ (items : Items) (tokens : List Token),
    tokens.map Token.lexeme = items.tokens.map Token.lexeme →
      ∃ others : Items, others.tokens = tokens ∧ others.Alike items
  | .close closing, tokens, same => by
    obtain ⟨closing', rest, rfl, noRest⟩ := split_first .rightBrace closing [] same
    obtain rfl := List.map_eq_nil_iff.mp noRest
    exact ⟨.close closing', rfl, rfl⟩
  | .last item closing, tokens, same => by
    obtain ⟨first, closing', rest, rfl, sameFirst, none⟩ :=
      split_at item.tokens .rightBrace closing [] same
    obtain rfl := List.map_eq_nil_iff.mp none
    obtain ⟨item', rfl, alike⟩ := item.exists_alike first sameFirst
    exact ⟨.last item' closing', rfl, congrArg (Items.last · 0) alike⟩
  | .more item comma rest, tokens, same => by
    obtain ⟨first, comma', last, rfl, sameFirst, sameLast⟩ :=
      split_at item.tokens .comma comma rest.tokens same
    obtain ⟨item', rfl, alike⟩ := item.exists_alike first sameFirst
    obtain ⟨rest', rfl, alikeRest⟩ := rest.exists_alike last sameLast
    exact ⟨.more item' comma' rest', rfl,
      by simp only [Items.Alike, Items.relocate, alike, alikeRest]⟩

theorem Bindings.exists_alike : ∀ (bindings : Bindings) (tokens : List Token),
    tokens.map Token.lexeme = bindings.tokens.map Token.lexeme →
      ∃ others : Bindings, others.tokens = tokens ∧ others.Alike bindings
  | .last name assign value, tokens, same => by
    obtain ⟨place, rest, rfl, sameRest⟩ := split_name name _ same
    obtain ⟨assign', last, rfl, sameLast⟩ := split_first .assign assign value.tokens sameRest
    obtain ⟨value', rfl, alike⟩ := value.exists_alike last sameLast
    exact ⟨.last ⟨name.text, place⟩ assign' value', rfl,
      congrArg (Bindings.last ⟨name.text, 0⟩ 0) alike⟩
  | .more name assign value comma rest, tokens, same => by
    obtain ⟨place, others, rfl, sameOthers⟩ := split_name name _ same
    obtain ⟨assign', values, rfl, sameValues⟩ := split_first .assign assign
      (value.tokens ++ Symbol.comma.at comma :: rest.tokens) sameOthers
    obtain ⟨first, comma', last, rfl, sameFirst, sameLast⟩ :=
      split_at value.tokens .comma comma rest.tokens sameValues
    obtain ⟨value', rfl, alike⟩ := value.exists_alike first sameFirst
    obtain ⟨rest', rfl, alikeRest⟩ := rest.exists_alike last sameLast
    exact ⟨.more ⟨name.text, place⟩ assign' value' comma' rest', rfl,
      by simp only [Bindings.Alike, Bindings.relocate, Name.relocate, alike, alikeRest]⟩

end

end ClamSyntax
