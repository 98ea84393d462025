import ClamSyntax.Arena.Build

namespace ClamSyntax

def Items.closing : Items → Nat
  | .close closing => closing
  | .last _ closing => closing
  | .more _ _ rest => rest.closing

/-- The range from the first token of the phrase to its last one. -/
def Phrase.span : Phrase → Span
  | .literal token _ => token.span
  | .name written => written.span
  | .list opening items => ⟨opening, items.closing + 1⟩
  | .letIn opening _ _ body => ⟨opening, body.span.stop⟩
  | .function opening _ _ _ body => ⟨opening, body.span.stop⟩
  | .print opening operand => ⟨opening, operand.span.stop⟩
  | .conditional opening _ _ _ _ no => ⟨opening, no.span.stop⟩
  | .unary _ opening operand => ⟨opening, operand.span.stop⟩
  | .group opening _ closing => ⟨opening, closing + 1⟩
  | .binary left _ _ right => ⟨left.span.start, right.span.stop⟩
  | .application callee argument => ⟨callee.span.start, argument.span.stop⟩
  | .subscript target _ _ closing => ⟨target.span.start, closing + 1⟩

mutual

/-- The number of nodes that are stored before the root of the phrase. -/
def Phrase.preceding : Phrase → Nat
  | .literal .. | .name _ => 0
  | .list _ items => items.count
  | .letIn _ bindings _ body => bindings.count + (body.preceding + 1)
  | .function _ _ more _ body => body.preceding + 1 + more.length
  | .print _ operand => operand.preceding + 1
  | .conditional _ condition _ yes _ no =>
    condition.preceding + 1 + (yes.preceding + 1 + (no.preceding + 1))
  | .unary _ _ operand => operand.preceding + 1
  | .group _ body _ => body.preceding
  | .binary left _ _ right => left.preceding + 1 + (right.preceding + 1)
  | .application callee argument => callee.preceding + 1 + (argument.preceding + 1)
  | .subscript target _ index _ => target.preceding + 1 + (index.preceding + 1)

def Items.count : Items → Nat
  | .close _ => 0
  | .last item _ => item.preceding + 1
  | .more item _ rest => item.preceding + 1 + rest.count

def Bindings.count : Bindings → Nat
  | .last _ _ value => value.preceding + 1
  | .more _ _ value _ rest => value.preceding + 1 + rest.count

end

def Items.roots (base : Nat) : Items → List Nat
  | .close _ => []
  | .last item _ => [base + item.preceding]
  | .more item _ rest => (base + item.preceding) :: rest.roots (base + (item.preceding + 1))

def Bindings.bound (base : Nat) : Bindings → List LetBinding
  | .last name _ value => [⟨name.span, name.text, base + value.preceding⟩]
  | .more name _ value _ rest =>
    ⟨name.span, name.text, base + value.preceding⟩ :: rest.bound (base + (value.preceding + 1))

/-- What the root of the phrase is, if its nodes are stored from a position on. -/
def Phrase.form (base : Nat) : Phrase → Form
  | .literal _ value => .literal value
  | .name written => .name written.text
  | .list _ items => .list (items.roots base)
  | .letIn _ bindings _ body =>
    .letIn (bindings.bound base) (base + bindings.count + body.preceding)
  | .function _ first more _ body => .function first.text (base + body.preceding + more.length)
  | .print _ operand => .print (base + operand.preceding)
  | .conditional _ condition _ yes _ no =>
    .conditional (base + condition.preceding) (base + (condition.preceding + 1) + yes.preceding)
      (base + (condition.preceding + 1 + (yes.preceding + 1)) + no.preceding)
  | .unary op opening operand => .unary op (op.symbol.at opening).span (base + operand.preceding)
  | .group _ body _ => body.form base
  | .binary left op place right =>
    .binary op ((Symbol.binary op).at place).span (base + left.preceding)
      (base + (left.preceding + 1) + right.preceding)
  | .application callee argument =>
    .application (base + callee.preceding) (base + (callee.preceding + 1) + argument.preceding)
  | .subscript target _ index _ =>
    .subscript (base + target.preceding) (base + (target.preceding + 1) + index.preceding)

/-- The functions of the parameters behind the first one, the innermost first. -/
def Arena.functionNodes (body : Nat) (span : Span) : List Name → List Node
  | [] => []
  | param :: outer => ⟨.function param.text body, span⟩ :: functionNodes (body + 1) span outer

mutual

/-- The nodes of the phrase in the order in which they are stored. -/
def Phrase.nodes (base : Nat) (outer : Option Span) : Phrase → List Node
  | .literal token value => [⟨.literal value, outer.getD token.span⟩]
  | .name name => [⟨.name name.text, outer.getD name.span⟩]
  | .list opening items =>
    items.nodes base ++
      [⟨(Phrase.list opening items).form base, outer.getD (Phrase.list opening items).span⟩]
  | .letIn opening bindings inAt body =>
    bindings.nodes base ++ (body.nodes (base + bindings.count) none ++
      [⟨(Phrase.letIn opening bindings inAt body).form base,
        outer.getD (Phrase.letIn opening bindings inAt body).span⟩])
  | .function opening first more arrow body =>
    body.nodes base none ++ (Arena.functionNodes (base + body.preceding)
        (Phrase.function opening first more arrow body).span more.reverse ++
      [⟨(Phrase.function opening first more arrow body).form base,
        outer.getD (Phrase.function opening first more arrow body).span⟩])
  | .print opening operand =>
    operand.nodes base none ++
      [⟨(Phrase.print opening operand).form base, outer.getD (Phrase.print opening operand).span⟩]
  | .conditional opening condition thenAt yes elseAt no =>
    condition.nodes base none ++ (yes.nodes (base + (condition.preceding + 1)) none ++
      (no.nodes (base + (condition.preceding + 1 + (yes.preceding + 1))) none ++
        [⟨(Phrase.conditional opening condition thenAt yes elseAt no).form base,
          outer.getD (Phrase.conditional opening condition thenAt yes elseAt no).span⟩]))
  | .unary op opening operand =>
    operand.nodes base none ++
      [⟨(Phrase.unary op opening operand).form base,
        outer.getD (Phrase.unary op opening operand).span⟩]
  | .group opening body closing => body.nodes base (some (outer.getD ⟨opening, closing + 1⟩))
  | .binary left op place right =>
    left.nodes base none ++ (right.nodes (base + (left.preceding + 1)) none ++
      [⟨(Phrase.binary left op place right).form base,
        outer.getD (Phrase.binary left op place right).span⟩])
  | .application callee argument =>
    callee.nodes base none ++ (argument.nodes (base + (callee.preceding + 1)) none ++
      [⟨(Phrase.application callee argument).form base,
        outer.getD (Phrase.application callee argument).span⟩])
  | .subscript target opening index closing =>
    target.nodes base none ++ (index.nodes (base + (target.preceding + 1)) none ++
      [⟨(Phrase.subscript target opening index closing).form base,
        outer.getD (Phrase.subscript target opening index closing).span⟩])

def Items.nodes (base : Nat) : Items → List Node
  | .close _ => []
  | .last item _ => item.nodes base none
  | .more item _ rest => item.nodes base none ++ rest.nodes (base + (item.preceding + 1))

def Bindings.nodes (base : Nat) : Bindings → List Node
  | .last _ _ value => value.nodes base none
  | .more _ _ value _ rest => value.nodes base none ++ rest.nodes (base + (value.preceding + 1))

end

@[simp] theorem Arena.functionNodes_length (body : Nat) (span : Span) (params : List Name) :
    (Arena.functionNodes body span params).length = params.length := by
  induction params generalizing body with
  | nil => rfl
  | cons param outer ih => simp [Arena.functionNodes, ih]

mutual

@[simp] theorem Phrase.nodes_length (base : Nat) (outer : Option Span) : ∀ phrase : Phrase,
    (phrase.nodes base outer).length = phrase.preceding + 1
  | .literal .. | .name _ => rfl
  | .list _ items => by simp [Phrase.nodes, Phrase.preceding, items.nodes_length]
  | .letIn _ bindings _ body => by
    simp [Phrase.nodes, Phrase.preceding, bindings.nodes_length, body.nodes_length, Nat.add_assoc]
  | .function _ _ _ _ body => by
    simp [Phrase.nodes, Phrase.preceding, body.nodes_length, Nat.add_assoc]
  | .print _ operand => by simp [Phrase.nodes, Phrase.preceding, operand.nodes_length]
  | .conditional _ condition _ yes _ no => by
    simp [Phrase.nodes, Phrase.preceding, condition.nodes_length, yes.nodes_length, no.nodes_length,
      Nat.add_assoc]
  | .unary _ _ operand => by simp [Phrase.nodes, Phrase.preceding, operand.nodes_length]
  | .group _ body _ => body.nodes_length base _
  | .binary left _ _ right => by
    simp [Phrase.nodes, Phrase.preceding, left.nodes_length, right.nodes_length, Nat.add_assoc]
  | .application callee argument => by
    simp [Phrase.nodes, Phrase.preceding, callee.nodes_length, argument.nodes_length, Nat.add_assoc]
  | .subscript target _ index _ => by
    simp [Phrase.nodes, Phrase.preceding, target.nodes_length, index.nodes_length, Nat.add_assoc]

@[simp] theorem Items.nodes_length (base : Nat) : ∀ items : Items,
    (items.nodes base).length = items.count
  | .close _ => rfl
  | .last item _ => item.nodes_length base none
  | .more item _ rest => by simp [Items.nodes, Items.count, item.nodes_length, rest.nodes_length]

@[simp] theorem Bindings.nodes_length (base : Nat) : ∀ bindings : Bindings,
    (bindings.nodes base).length = bindings.count
  | .last _ _ value => value.nodes_length base none
  | .more _ _ value _ rest => by
    simp [Bindings.nodes, Bindings.count, value.nodes_length, rest.nodes_length]

end

namespace Arena

def append (arena : Arena) (nodes : List Node) : Arena := ⟨arena.nodes ++ nodes.toArray⟩

@[simp] theorem size_append (arena : Arena) (nodes : List Node) :
    (arena.append nodes).size = arena.size + nodes.length := by
  simp [append, size]

theorem append_nil (arena : Arena) : arena.append [] = arena := by
  simp [append]

theorem append_append (arena : Arena) (first second : List Node) :
    (arena.append first).append second = arena.append (first ++ second) := by
  simp [append]

theorem push_eq_append (arena : Arena) (node : Node) : arena.push node = arena.append [node] := by
  simp [push, append]

theorem add_append (arena : Arena) (nodes : List Node) (form : Form) (span : Span) :
    (arena.append nodes).add form span =
      ⟨arena.append (nodes ++ [⟨form, span⟩]), arena.size + nodes.length, span⟩ := by
  rw [add, push_eq_append, append_append, size_append]

theorem addFunctions_eq (body : Stored) (span : Span) (params : List Name)
    (last : body.root + 1 = body.arena.size) :
    (addFunctions body span params).arena =
        body.arena.append (functionNodes body.root span params) ∧
      (addFunctions body span params).root = body.root + params.length := by
  induction params generalizing body with
  | nil => exact ⟨(append_nil body.arena).symm, rfl⟩
  | cons param outer ih =>
    let next : Stored := ⟨body.arena.append [⟨.function param.text body.root, span⟩],
      body.root + 1, span⟩
    have added : addFunctions body span (param :: outer) = addFunctions next span outer := by
      rw [addFunctions, add, push_eq_append, ← last]
    obtain ⟨arenaEq, rootEq⟩ := ih next (by simp [next, last])
    refine ⟨?_, ?_⟩
    · rw [added, arenaEq, append_append]
      rfl
    · rw [added, rootEq, List.length_cons, Nat.add_assoc, Nat.add_comm 1]

end Arena

mutual

/-- Storing a phrase appends its nodes; the root is the last of them. -/
theorem Phrase.store_eq (arena : Arena) (outer : Option Span) : ∀ phrase : Phrase,
    phrase.store arena outer = ⟨arena.append (phrase.nodes arena.size outer),
      arena.size + phrase.preceding, outer.getD phrase.span⟩
  | .literal .. | .name _ => by
    simp only [Phrase.store, Arena.add, Arena.push_eq_append]
    rfl
  | .list opening items => by
    simp only [Phrase.store, items.store_eq, Arena.add_append, Items.nodes_length]
    rfl
  | .letIn opening bindings inAt body => by
    simp only [Phrase.store, bindings.store_eq, body.store_eq, Arena.append_append,
      Arena.size_append, Arena.add_append, Bindings.nodes_length, List.length_append,
      Phrase.nodes_length, List.append_assoc]
    rfl
  | .function opening first more arrow body => by
    have inner := Arena.addFunctions_eq (body.store arena none)
      ⟨opening, (body.store arena none).span.stop⟩ more.reverse
      (by simp [body.store_eq, Nat.add_assoc])
    simp only [Phrase.store, inner.1, inner.2]
    simp only [body.store_eq, Arena.append_append, Arena.add_append, Phrase.nodes_length,
      List.length_append, Arena.functionNodes_length, List.length_reverse, List.append_assoc]
    rfl
  | .print opening operand => by
    simp only [Phrase.store, operand.store_eq, Arena.add_append, Phrase.nodes_length]
    rfl
  | .conditional opening condition thenAt yes elseAt no => by
    simp only [Phrase.store, condition.store_eq, yes.store_eq, no.store_eq, Arena.append_append,
      Arena.size_append, Arena.add_append, List.length_append, Phrase.nodes_length,
      List.append_assoc]
    rfl
  | .unary op opening operand => by
    simp only [Phrase.store, operand.store_eq, Arena.add_append, Phrase.nodes_length]
    rfl
  | .group opening body closing => body.store_eq arena _
  | .binary left op place right => by
    simp only [Phrase.store, left.store_eq, right.store_eq, Arena.append_append,
      Arena.size_append, Arena.add_append, List.length_append, Phrase.nodes_length,
      List.append_assoc]
    rfl
  | .application callee argument => by
    simp only [Phrase.store, callee.store_eq, argument.store_eq, Arena.append_append,
      Arena.size_append, Arena.add_append, List.length_append, Phrase.nodes_length,
      List.append_assoc]
    rfl
  | .subscript target opening index closing => by
    simp only [Phrase.store, target.store_eq, index.store_eq, Arena.append_append,
      Arena.size_append, Arena.add_append, List.length_append, Phrase.nodes_length,
      List.append_assoc]
    rfl

theorem Items.store_eq (arena : Arena) : ∀ items : Items,
    items.store arena =
      (arena.append (items.nodes arena.size), items.roots arena.size, items.closing)
  | .close _ => by rw [Items.nodes, Arena.append_nil]; rfl
  | .last item _ => by
    simp only [Items.store, item.store_eq]
    rfl
  | .more item _ rest => by
    simp only [Items.store, item.store_eq, rest.store_eq, Arena.append_append, Arena.size_append,
      Phrase.nodes_length]
    rfl

theorem Bindings.store_eq (arena : Arena) : ∀ bindings : Bindings,
    bindings.store arena =
      (arena.append (bindings.nodes arena.size), bindings.bound arena.size)
  | .last _ _ value => by
    simp only [Bindings.store, value.store_eq]
    rfl
  | .more _ _ value _ rest => by
    simp only [Bindings.store, value.store_eq, rest.store_eq, Arena.append_append,
      Arena.size_append, Phrase.nodes_length]
    rfl

end

end ClamSyntax
