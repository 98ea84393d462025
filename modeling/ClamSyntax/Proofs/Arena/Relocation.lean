import ClamSyntax.Proofs.Phrase.Extent

namespace ClamSyntax

def Span.transport (starts stops : Nat → Nat) (span : Span) : Span :=
  ⟨starts span.start, stops span.stop⟩

def LetBinding.rebase (place : Nat → Nat) (range : Span → Span) (binding : LetBinding) :
    LetBinding :=
  ⟨range binding.span, binding.name, place binding.value⟩

def Form.rebase (place : Nat → Nat) (range : Span → Span) : Form → Form
  | .literal value => .literal value
  | .name text => .name text
  | .list items => .list (items.map place)
  | .letIn bindings body => .letIn (bindings.map (LetBinding.rebase place range)) (place body)
  | .function param body => .function param (place body)
  | .application callee argument => .application (place callee) (place argument)
  | .print operand => .print (place operand)
  | .conditional condition yes no => .conditional (place condition) (place yes) (place no)
  | .unary op span operand => .unary op (range span) (place operand)
  | .binary op span left right => .binary op (range span) (place left) (place right)
  | .subscript target index => .subscript (place target) (place index)

/-- The node with its ranges moved and its children at other positions. -/
def Node.rebase (place : Nat → Nat) (range : Span → Span) (node : Node) : Node :=
  ⟨node.form.rebase place range, range node.span⟩

/-- The end of the token moves along with its start. -/
def Token.Carried (starts stops : Nat → Nat) (token : Token) : Prop :=
  stops token.stop = (token.relocate starts).stop

variable {starts stops : Nat → Nat}

theorem Token.Carried.span {token : Token} (carried : token.Carried starts stops) :
    (token.relocate starts).span = token.span.transport starts stops := by
  rw [Token.span, Token.span, Span.transport, carried]
  rfl

mutual

theorem Phrase.preceding_relocate (move : Nat → Nat) : ∀ phrase : Phrase,
    (phrase.relocate move).preceding = phrase.preceding
  | .literal .. | .name _ => rfl
  | .list _ items => items.count_relocate move
  | .letIn _ bindings _ body => by
    simp only [Phrase.relocate, Phrase.preceding, bindings.count_relocate, body.preceding_relocate]
  | .function _ _ more _ body => by
    simp only [Phrase.relocate, Phrase.preceding, body.preceding_relocate, List.length_map]
  | .print _ operand | .unary _ _ operand =>
    congrArg (· + 1) (operand.preceding_relocate move)
  | .conditional _ condition _ yes _ no => by
    simp only [Phrase.relocate, Phrase.preceding, condition.preceding_relocate,
      yes.preceding_relocate, no.preceding_relocate]
  | .group _ body _ => body.preceding_relocate move
  | .binary first _ _ second | .application first second | .subscript first _ second _ => by
    simp only [Phrase.relocate, Phrase.preceding, first.preceding_relocate,
      second.preceding_relocate]

theorem Items.count_relocate (move : Nat → Nat) : ∀ items : Items,
    (items.relocate move).count = items.count
  | .close _ => rfl
  | .last item _ => congrArg (· + 1) (item.preceding_relocate move)
  | .more item _ rest => by
    simp only [Items.relocate, Items.count, item.preceding_relocate, rest.count_relocate]

theorem Bindings.count_relocate (move : Nat → Nat) : ∀ bindings : Bindings,
    (bindings.relocate move).count = bindings.count
  | .last _ _ value => congrArg (· + 1) (value.preceding_relocate move)
  | .more _ _ value _ rest => by
    simp only [Bindings.relocate, Bindings.count, value.preceding_relocate, rest.count_relocate]

end

attribute [simp] Phrase.preceding_relocate Items.count_relocate Bindings.count_relocate

/-- The range of a phrase moves with its first and last token. -/
theorem Phrase.span_relocate {phrase : Phrase}
    (carried : ∀ token ∈ phrase.tokens, token.Carried starts stops) :
    (phrase.relocate starts).span = phrase.span.transport starts stops := by
  have last : stops phrase.last.stop = (phrase.last.relocate starts).stop :=
    carried _ phrase.last_mem
  rw [span_eq, span_eq phrase, first_relocate, last_relocate, Span.transport, last]
  rfl

variable (distance : Nat)

private theorem Items.roots_relocate (move : Nat → Nat) : ∀ (items : Items) (base : Nat),
    (items.relocate move).roots (distance + base) = (items.roots base).map (distance + ·)
  | .close _, _ => rfl
  | .last item _, base => by
    simp [Items.relocate, Items.roots, Nat.add_assoc]
  | .more item _ rest, base => by
    simp [Items.relocate, Items.roots, Nat.add_assoc, rest.roots_relocate]

private theorem Bindings.bound_relocate : ∀ (bindings : Bindings) (base : Nat),
    (∀ token ∈ bindings.tokens, token.Carried starts stops) →
      (bindings.relocate starts).bound (distance + base) =
        (bindings.bound base).map
          (LetBinding.rebase (distance + ·) (Span.transport starts stops))
  | .last name assign value, base, carried => by
    have named : (name.relocate starts).span = name.span.transport starts stops :=
      (carried name.token List.mem_cons_self).span
    simp only [Bindings.relocate, Bindings.bound, LetBinding.rebase, Nat.add_assoc, named,
      Phrase.preceding_relocate, List.map_cons, List.map_nil]
    rfl
  | .more name assign value comma rest, base, carried => by
    have named : (name.relocate starts).span = name.span.transport starts stops :=
      (carried name.token List.mem_cons_self).span
    simp only [Bindings.tokens, List.forall_mem_cons, List.forall_mem_append] at carried
    have others := rest.bound_relocate (base + (value.preceding + 1)) carried.2.2.2.2
    rw [← Nat.add_assoc] at others
    simp only [Bindings.relocate, Bindings.bound, LetBinding.rebase, Nat.add_assoc, named,
      Phrase.preceding_relocate, List.map_cons, ← others]
    rfl

private theorem Phrase.form_relocate : ∀ (phrase : Phrase) (base : Nat),
    (∀ token ∈ phrase.tokens, token.Carried starts stops) →
      (phrase.relocate starts).form (distance + base) =
        (phrase.form base).rebase (distance + ·) (Span.transport starts stops)
  | .group _ body _, base, carried => by
    simp only [Phrase.tokens, List.forall_mem_cons, List.forall_mem_append] at carried
    exact body.form_relocate base carried.2.1
  | .list _ items, base, _ => congrArg Form.list (items.roots_relocate distance starts base)
  | .letIn _ bindings _ body, base, carried => by
    simp only [Phrase.tokens, List.forall_mem_cons, List.forall_mem_append] at carried
    simp [Phrase.relocate, Phrase.form, Form.rebase, Nat.add_assoc,
      bindings.bound_relocate distance base carried.2.1]
  | .unary op opening operand, base, carried => by
    have operator := (carried (op.symbol.at opening) List.mem_cons_self).span
    simp only [Phrase.relocate, Phrase.form, Form.rebase, Nat.add_assoc, preceding_relocate,
      ← operator]
    rfl
  | .binary left op place right, base, carried => by
    have operator := (carried ((Symbol.binary op).at place)
      (List.mem_append_right _ List.mem_cons_self)).span
    simp only [Phrase.relocate, Phrase.form, Form.rebase, Nat.add_assoc, preceding_relocate,
      ← operator]
    rfl
  | .literal .., _, _ | .name _, _, _ | .function .., _, _ | .print .., _, _
  | .conditional .., _, _ | .application .., _, _ | .subscript .., _, _ => by
    simp [Phrase.relocate, Phrase.form, Form.rebase, Nat.add_assoc, Name.relocate]

theorem Arena.functionNodes_relocate (body : Nat) (span : Span) (params : List Name) :
    functionNodes (distance + body) (span.transport starts stops)
        (params.map (Name.relocate starts)) =
      (functionNodes body span params).map
        (Node.rebase (distance + ·) (Span.transport starts stops)) := by
  induction params generalizing body with
  | nil => rfl
  | cons param outer ih =>
    simp only [List.map_cons, functionNodes, Nat.add_assoc, ih]
    rfl

/-- The root of a moved phrase, in whatever parentheses. -/
theorem Phrase.root_relocate (phrase : Phrase) (base : Nat) (outer : Option Span)
    (carried : ∀ token ∈ phrase.tokens, token.Carried starts stops) :
    Node.mk ((phrase.relocate starts).form (distance + base))
        ((outer.map (Span.transport starts stops)).getD (phrase.relocate starts).span) =
      Node.rebase (distance + ·) (Span.transport starts stops)
        ⟨phrase.form base, outer.getD phrase.span⟩ := by
  rw [phrase.form_relocate distance base carried, span_relocate carried, Option.getD_map]
  rfl

mutual

/-- The nodes of a moved phrase are the moved nodes of the phrase. -/
theorem Phrase.nodes_relocate : ∀ (phrase : Phrase) (base : Nat) (outer : Option Span),
    (∀ token ∈ phrase.tokens, token.Carried starts stops) →
      (phrase.relocate starts).nodes (distance + base)
          (outer.map (Span.transport starts stops)) =
        (phrase.nodes base outer).map
          (Node.rebase (distance + ·) (Span.transport starts stops))
  | .literal token value, base, outer, carried =>
    congrArg (fun node => [node])
      ((Phrase.literal token value).root_relocate distance base outer carried)
  | .name name, base, outer, carried =>
    congrArg (fun node => [node]) ((Phrase.name name).root_relocate distance base outer carried)
  | .list opening items, base, outer, carried => by
    have root := (Phrase.list opening items).root_relocate distance base outer carried
    simp only [Phrase.tokens, List.forall_mem_cons] at carried
    simp only [Phrase.nodes, List.map_append, List.map_cons, List.map_nil, ← root,
      ← items.nodes_relocate base carried.2]
    rfl
  | .letIn opening bindings inAt body, base, outer, carried => by
    have root := (Phrase.letIn opening bindings inAt body).root_relocate distance base outer carried
    simp only [Phrase.tokens, List.forall_mem_cons, List.forall_mem_append] at carried
    have inner := body.nodes_relocate (base + bindings.count) none carried.2.2.2
    simp only [Phrase.nodes, List.map_append, List.map_cons, List.map_nil, ← root,
      ← bindings.nodes_relocate base carried.2.1, ← inner, Option.map_none, Phrase.relocate,
      Bindings.count_relocate, Nat.add_assoc]
  | .function opening first more arrow body, base, outer, carried => by
    have root :=
      (Phrase.function opening first more arrow body).root_relocate distance base outer carried
    have span := Phrase.span_relocate carried
    simp only [Phrase.tokens, List.forall_mem_cons, List.forall_mem_append] at carried
    have inner := body.nodes_relocate base none carried.2.2.2.2
    simp only [Phrase.nodes, List.map_append, List.map_cons, List.map_nil, ← root, ← inner,
      ← Arena.functionNodes_relocate, ← span, Option.map_none, Phrase.relocate,
      Phrase.preceding_relocate, Nat.add_assoc, List.map_reverse]
  | .print opening operand, base, outer, carried => by
    have root := (Phrase.print opening operand).root_relocate distance base outer carried
    simp only [Phrase.tokens, List.forall_mem_cons] at carried
    simp only [Phrase.nodes, List.map_append, List.map_cons, List.map_nil, ← root,
      ← operand.nodes_relocate base none carried.2]
    rfl
  | .conditional opening condition thenAt yes elseAt no, base, outer, carried => by
    have root := (Phrase.conditional opening condition thenAt yes elseAt no).root_relocate
      distance base outer carried
    simp only [Phrase.tokens, List.forall_mem_cons, List.forall_mem_append] at carried
    have first := condition.nodes_relocate base none carried.2.1
    have second := yes.nodes_relocate (base + (condition.preceding + 1)) none carried.2.2.2.1
    have third := no.nodes_relocate
      (base + (condition.preceding + 1 + (yes.preceding + 1))) none carried.2.2.2.2.2
    simp only [Nat.add_assoc] at third
    simp only [Phrase.nodes, List.map_append, List.map_cons, List.map_nil, ← root, ← first,
      ← second, ← third, Option.map_none, Phrase.relocate, Phrase.preceding_relocate,
      Nat.add_assoc]
  | .unary op opening operand, base, outer, carried => by
    have root := (Phrase.unary op opening operand).root_relocate distance base outer carried
    simp only [Phrase.tokens, List.forall_mem_cons] at carried
    simp only [Phrase.nodes, List.map_append, List.map_cons, List.map_nil, ← root,
      ← operand.nodes_relocate base none carried.2]
    rfl
  | .group opening body closing, base, outer, carried => by
    have span := Phrase.span_relocate carried
    simp only [Phrase.tokens, List.forall_mem_cons, List.forall_mem_append] at carried
    have inner := body.nodes_relocate base (some (outer.getD ⟨opening, closing + 1⟩)) carried.2.1
    change (body.relocate starts).nodes (distance + base)
      (some ((outer.map _).getD ((Phrase.group opening body closing).relocate starts).span)) = _
    rw [span, Option.getD_map]
    exact inner
  | .binary left op place right, base, outer, carried => by
    have root := (Phrase.binary left op place right).root_relocate distance base outer carried
    simp only [Phrase.tokens, List.forall_mem_cons, List.forall_mem_append] at carried
    have first := left.nodes_relocate base none carried.1
    have second := right.nodes_relocate (base + (left.preceding + 1)) none carried.2.2
    simp only [Phrase.nodes, List.map_append, List.map_cons, List.map_nil, ← root, ← first,
      ← second, Option.map_none, Phrase.relocate, Phrase.preceding_relocate, Nat.add_assoc]
  | .application callee argument, base, outer, carried => by
    have root := (Phrase.application callee argument).root_relocate distance base outer carried
    simp only [Phrase.tokens, List.forall_mem_append] at carried
    have first := callee.nodes_relocate base none carried.1
    have second := argument.nodes_relocate (base + (callee.preceding + 1)) none carried.2
    simp only [Phrase.nodes, List.map_append, List.map_cons, List.map_nil, ← root, ← first,
      ← second, Option.map_none, Phrase.relocate, Phrase.preceding_relocate, Nat.add_assoc]
  | .subscript target opening index closing, base, outer, carried => by
    have root :=
      (Phrase.subscript target opening index closing).root_relocate distance base outer carried
    simp only [Phrase.tokens, List.forall_mem_cons, List.forall_mem_append] at carried
    have first := target.nodes_relocate base none carried.1
    have second := index.nodes_relocate (base + (target.preceding + 1)) none carried.2.2.1
    simp only [Phrase.nodes, List.map_append, List.map_cons, List.map_nil, ← root, ← first,
      ← second, Option.map_none, Phrase.relocate, Phrase.preceding_relocate, Nat.add_assoc]

theorem Items.nodes_relocate : ∀ (items : Items) (base : Nat),
    (∀ token ∈ items.tokens, token.Carried starts stops) →
      (items.relocate starts).nodes (distance + base) =
        (items.nodes base).map (Node.rebase (distance + ·) (Span.transport starts stops))
  | .close _, _, _ => rfl
  | .last item _, base, carried => by
    simp only [Items.tokens, List.forall_mem_append] at carried
    exact item.nodes_relocate base none carried.1
  | .more item _ rest, base, carried => by
    simp only [Items.tokens, List.forall_mem_cons, List.forall_mem_append] at carried
    simp only [Items.nodes, List.map_append, ← item.nodes_relocate base none carried.1,
      ← rest.nodes_relocate (base + (item.preceding + 1)) carried.2.2, Option.map_none,
      Items.relocate, Phrase.preceding_relocate, Nat.add_assoc]

theorem Bindings.nodes_relocate : ∀ (bindings : Bindings) (base : Nat),
    (∀ token ∈ bindings.tokens, token.Carried starts stops) →
      (bindings.relocate starts).nodes (distance + base) =
        (bindings.nodes base).map (Node.rebase (distance + ·) (Span.transport starts stops))
  | .last _ _ value, base, carried => by
    simp only [Bindings.tokens, List.forall_mem_cons] at carried
    exact value.nodes_relocate base none carried.2.2
  | .more _ _ value _ rest, base, carried => by
    simp only [Bindings.tokens, List.forall_mem_cons, List.forall_mem_append] at carried
    simp only [Bindings.nodes, List.map_append, ← value.nodes_relocate base none carried.2.2.1,
      ← rest.nodes_relocate (base + (value.preceding + 1)) carried.2.2.2.2, Option.map_none,
      Bindings.relocate, Phrase.preceding_relocate, Nat.add_assoc]

end

/-- The same where the phrase is stored from the same position on. -/
theorem Phrase.nodes_transport {phrase : Phrase} (base : Nat) (outer : Option Span)
    (carried : ∀ token ∈ phrase.tokens, token.Carried starts stops) :
    (phrase.relocate starts).nodes base (outer.map (Span.transport starts stops)) =
      (phrase.nodes base outer).map (Node.rebase id (Span.transport starts stops)) := by
  have moved := phrase.nodes_relocate 0 base outer carried
  simp only [Nat.zero_add] at moved
  exact moved

/-! Where ranges come from -/

/-- The ranges of the form: that of an operator, or those of the bound names. -/
def Form.ranges : Form → List Span
  | .letIn bindings _ => bindings.map LetBinding.span
  | .unary _ place _ => [place]
  | .binary _ place _ _ => [place]
  | _ => []

/-- The range goes from the start of one of the tokens to the end of one of them. -/
def Span.Spells (tokens : List Token) (span : Span) : Prop :=
  ∃ first ∈ tokens, ∃ last ∈ tokens, span = ⟨first.start, last.stop⟩

theorem Span.Spells.mono {tokens others : List Token} {span : Span} (spells : span.Spells tokens)
    (subset : tokens ⊆ others) : span.Spells others := by
  obtain ⟨first, begins, last, ends, same⟩ := spells
  exact ⟨first, subset begins, last, subset ends, same⟩

theorem Token.span_spells {token : Token} {tokens : List Token} (member : token ∈ tokens) :
    token.span.Spells tokens :=
  ⟨token, member, token, member, rfl⟩

theorem Phrase.span_spells (phrase : Phrase) : phrase.span.Spells phrase.tokens :=
  ⟨_, phrase.first_mem, _, phrase.last_mem, phrase.span_eq⟩

private theorem Bindings.bound_spell {tokens : List Token} : ∀ (bindings : Bindings) (base : Nat),
    bindings.tokens ⊆ tokens → ∀ binding ∈ bindings.bound base, binding.span.Spells tokens
  | .last _ _ _, _, subset =>
    List.forall_mem_singleton.mpr (Token.span_spells (List.cons_subset.mp subset).1)
  | .more _ _ value comma rest, base, subset => by
    simp only [Bindings.tokens, List.cons_subset, List.append_subset] at subset
    exact List.forall_mem_cons.mpr
      ⟨Token.span_spells subset.1, rest.bound_spell _ subset.2.2.2.2⟩

private theorem Phrase.ranges_spell {tokens : List Token} : ∀ (phrase : Phrase) (base : Nat),
    phrase.tokens ⊆ tokens → ∀ span ∈ (phrase.form base).ranges, span.Spells tokens
  | .group _ body _, base, subset => by
    simp only [Phrase.tokens, List.cons_subset, List.append_subset] at subset
    exact body.ranges_spell base subset.2.1
  | .letIn _ bindings _ _, base, subset => by
    simp only [Phrase.tokens, List.cons_subset, List.append_subset] at subset
    exact List.forall_mem_map.mpr (bindings.bound_spell base subset.2.1)
  | .unary .., _, subset =>
    List.forall_mem_singleton.mpr (Token.span_spells (List.cons_subset.mp subset).1)
  | .binary .., _, subset =>
    List.forall_mem_singleton.mpr
      (Token.span_spells (subset (List.mem_append_right _ List.mem_cons_self)))
  | .literal .., _, _ | .name _, _, _ | .list .., _, _ | .function .., _, _ | .print .., _, _
  | .conditional .., _, _ | .application .., _, _ | .subscript .., _, _ => nofun

/-- All ranges of the node go from token to token. -/
def Node.Spells (tokens : List Token) (node : Node) : Prop :=
  ∀ span ∈ node.span :: node.form.ranges, span.Spells tokens

theorem Node.Spells.mono {tokens others : List Token} {node : Node} (spells : node.Spells tokens)
    (subset : tokens ⊆ others) : node.Spells others :=
  fun span member => (spells span member).mono subset

section Spells

variable {tokens : List Token}

theorem Phrase.root_spells {phrase : Phrase} {outer : Option Span} (base : Nat)
    (subset : phrase.tokens ⊆ tokens) (around : ∀ span ∈ outer, span.Spells tokens) :
    ∀ node ∈ [Node.mk (phrase.form base) (outer.getD phrase.span)], node.Spells tokens := by
  refine List.forall_mem_singleton.mpr
    (List.forall_mem_cons.mpr ⟨?_, phrase.ranges_spell base subset⟩)
  cases outer with
  | none => exact phrase.span_spells.mono subset
  | some span => exact around span rfl

theorem Arena.functionNodes_spell {span : Span} (spells : span.Spells tokens)
    (params : List Name) (body : Nat) :
    ∀ node ∈ functionNodes body span params, node.Spells tokens := by
  induction params generalizing body with
  | nil => exact nofun
  | cons param outer ih =>
    exact List.forall_mem_cons.mpr ⟨List.forall_mem_singleton.mpr spells, ih (body + 1)⟩

mutual

private theorem Phrase.nodes_spell : ∀ (phrase : Phrase) (base : Nat) (outer : Option Span),
    phrase.tokens ⊆ tokens → (∀ span ∈ outer, span.Spells tokens) →
      ∀ node ∈ phrase.nodes base outer, node.Spells tokens
  | .literal .., base, _, subset, around | .name _, base, _, subset, around =>
    Phrase.root_spells base subset around
  | .list _ items, base, _, subset, around => by
    have root := Phrase.root_spells base subset around
    simp only [Phrase.tokens, List.cons_subset] at subset
    exact List.forall_mem_append.mpr ⟨items.nodes_spell base subset.2, root⟩
  | .letIn _ bindings _ body, base, _, subset, around => by
    have root := Phrase.root_spells base subset around
    simp only [Phrase.tokens, List.cons_subset, List.append_subset] at subset
    simp only [Phrase.nodes, List.forall_mem_append]
    exact ⟨bindings.nodes_spell base subset.2.1, body.nodes_spell _ none subset.2.2.2 nofun, root⟩
  | .function opening first more arrow body, base, _, subset, around => by
    have root := Phrase.root_spells base subset around
    have span := (Phrase.function opening first more arrow body).span_spells.mono subset
    simp only [Phrase.tokens, List.cons_subset, List.append_subset] at subset
    simp only [Phrase.nodes, List.forall_mem_append]
    exact ⟨body.nodes_spell base none subset.2.2.2.2 nofun,
      Arena.functionNodes_spell span _ _, root⟩
  | .print _ operand, base, _, subset, around | .unary _ _ operand, base, _, subset, around => by
    have root := Phrase.root_spells base subset around
    simp only [Phrase.tokens, List.cons_subset] at subset
    exact List.forall_mem_append.mpr ⟨operand.nodes_spell base none subset.2 nofun, root⟩
  | .conditional _ condition _ yes _ no, base, _, subset, around => by
    have root := Phrase.root_spells base subset around
    simp only [Phrase.tokens, List.cons_subset, List.append_subset] at subset
    simp only [Phrase.nodes, List.forall_mem_append]
    exact ⟨condition.nodes_spell base none subset.2.1 nofun,
      yes.nodes_spell _ none subset.2.2.2.1 nofun, no.nodes_spell _ none subset.2.2.2.2.2 nofun,
      root⟩
  | .group opening body closing, base, outer, subset, around => by
    have span := (Phrase.group opening body closing).span_spells.mono subset
    simp only [Phrase.tokens, List.cons_subset, List.append_subset] at subset
    refine body.nodes_spell base _ subset.2.1 ?_
    rintro _ ⟨⟩
    cases outer with
    | none => exact span
    | some outer => exact around outer rfl
  | .binary left _ _ right, base, _, subset, around => by
    have root := Phrase.root_spells base subset around
    simp only [Phrase.tokens, List.cons_subset, List.append_subset] at subset
    simp only [Phrase.nodes, List.forall_mem_append]
    exact ⟨left.nodes_spell base none subset.1 nofun,
      right.nodes_spell _ none subset.2.2 nofun, root⟩
  | .subscript target _ index _, base, _, subset, around => by
    have root := Phrase.root_spells base subset around
    simp only [Phrase.tokens, List.cons_subset, List.append_subset] at subset
    simp only [Phrase.nodes, List.forall_mem_append]
    exact ⟨target.nodes_spell base none subset.1 nofun,
      index.nodes_spell _ none subset.2.2.1 nofun, root⟩
  | .application callee argument, base, _, subset, around => by
    have root := Phrase.root_spells base subset around
    simp only [Phrase.tokens, List.append_subset] at subset
    simp only [Phrase.nodes, List.forall_mem_append]
    exact ⟨callee.nodes_spell base none subset.1 nofun,
      argument.nodes_spell _ none subset.2 nofun, root⟩

theorem Items.nodes_spell : ∀ (items : Items) (base : Nat), items.tokens ⊆ tokens →
    ∀ node ∈ items.nodes base, node.Spells tokens
  | .close _, _, _ => nofun
  | .last item _, base, subset => item.nodes_spell base none (List.append_subset.mp subset).1 nofun
  | .more item _ rest, base, subset => by
    simp only [Items.tokens, List.cons_subset, List.append_subset] at subset
    exact List.forall_mem_append.mpr
      ⟨item.nodes_spell base none subset.1 nofun, rest.nodes_spell _ subset.2.2⟩

theorem Bindings.nodes_spell : ∀ (bindings : Bindings) (base : Nat), bindings.tokens ⊆ tokens →
    ∀ node ∈ bindings.nodes base, node.Spells tokens
  | .last _ _ value, base, subset => by
    simp only [Bindings.tokens, List.cons_subset] at subset
    exact value.nodes_spell base none subset.2.2 nofun
  | .more _ _ value _ rest, base, subset => by
    simp only [Bindings.tokens, List.cons_subset, List.append_subset] at subset
    exact List.forall_mem_append.mpr
      ⟨value.nodes_spell base none subset.2.2.1 nofun, rest.nodes_spell _ subset.2.2.2.2⟩

end

theorem Phrase.nodes_spell_alone (phrase : Phrase) (base : Nat) (subset : phrase.tokens ⊆ tokens) :
    ∀ node ∈ phrase.nodes base none, node.Spells tokens :=
  phrase.nodes_spell base none subset nofun

end Spells

end ClamSyntax
