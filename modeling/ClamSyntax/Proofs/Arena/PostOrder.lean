import ClamSyntax.Proofs.Arena.Contents

/-! Stores in post-order. The nodes of a phrase are a tree whose every part is one run of
positions: the trees of the children one behind the other, in source order, and then their
parent. In such a run every position is a root or is named by exactly one parent. -/

namespace ClamSyntax

def Form.children : Form → List Nat
  | .literal _ | .name _ => []
  | .list items => items
  | .letIn bindings body => bindings.map LetBinding.value ++ [body]
  | .function _ body => [body]
  | .application callee argument => [callee, argument]
  | .print operand => [operand]
  | .conditional condition yes no => [condition, yes, no]
  | .unary _ _ operand => [operand]
  | .binary _ _ left right => [left, right]
  | .subscript target index => [target, index]

namespace Arena

/-- From the base up to the stop stand the trees of the roots, one behind the other. A tree
is the run of its children's trees with the root right behind it. -/
inductive Forest (arena : Arena) : Nat → Nat → List Nat → Prop
  | empty (base : Nat) : Forest arena base base []
  | tree {base root stop : Nat} {node : Node} {roots : List Nat} :
      Forest arena base root node.form.children → arena.get? root = some node →
      Forest arena (root + 1) stop roots → Forest arena base stop (root :: roots)

/-- The children that the nodes from the base up to the stop name, in the order of the
nodes. -/
def namedBetween (arena : Arena) (base stop : Nat) : List Nat :=
  (List.range' base (stop - base)).flatMap fun index =>
    (arena.get? index).elim [] (·.form.children)

/-- All children that the nodes of the store name. -/
def named (arena : Arena) : List Nat := arena.nodes.toList.flatMap (·.form.children)

variable {arena : Arena} {base stop : Nat} {roots : List Nat}

namespace Forest

theorem append {last : Nat} {others : List Nat} (first : arena.Forest base stop roots)
    (second : arena.Forest stop last others) : arena.Forest base last (roots ++ others) := by
  induction first with
  | empty => exact second
  | tree children found _ _ ih => exact .tree children found (ih second)

/-- A node right behind the trees of its children completes a tree. -/
theorem root (node : Node) (children : arena.Forest base stop node.form.children)
    (found : arena.get? stop = some node) : arena.Forest base (stop + 1) [stop] :=
  .tree children found (.empty _)

theorem base_le (forest : arena.Forest base stop roots) : base ≤ stop := by
  induction forest with
  | empty => exact Nat.le_refl _
  | tree _ _ _ first second => omega

theorem stop_eq {root : Nat} (tree : arena.Forest base stop [root]) : stop = root + 1 := by
  cases tree with
  | tree _ _ rest =>
    cases rest
    rfl

/-- Behind the children of a node, and nothing else, stands the node. -/
theorem children_of_tree {index : Nat} {node : Node} (tree : arena.Forest base stop [index])
    (found : arena.get? index = some node) : arena.Forest base index node.form.children := by
  cases tree with
  | tree children here _ =>
    cases here.symm.trans found
    exact children

theorem extend {other : Arena} (forest : arena.Forest base stop roots)
    (same : ∀ index < stop, other.get? index = arena.get? index) :
    other.Forest base stop roots := by
  induction forest with
  | empty => exact .empty _
  | tree _ found rest first second =>
    have behind := rest.base_le
    exact .tree (first fun index inside => same index (by omega))
      ((same _ (by omega)).trans found) (second same)

/-- Every node of a forest is the root of a tree that is one run of positions. -/
theorem tree_at (forest : arena.Forest base stop roots) {index : Nat} (low : base ≤ index)
    (high : index < stop) : ∃ first, base ≤ first ∧ arena.Forest first (index + 1) [index] := by
  induction forest with
  | empty => omega
  | @tree base root stop node roots children found rest first second =>
    by_cases before : index < root
    · exact first low before
    · by_cases here : index = root
      · subst here
        exact ⟨base, Nat.le_refl _, children.root node found⟩
      · obtain ⟨start, bound, whole⟩ := second (by omega) high
        have ahead := children.base_le
        exact ⟨start, by omega, whole⟩

theorem root_mem (forest : arena.Forest base stop roots) :
    ∀ root ∈ roots, base ≤ root ∧ root < stop := by
  induction forest with
  | empty => exact nofun
  | tree children _ rest _ second =>
    have ahead := children.base_le
    have behind := rest.base_le
    refine List.forall_mem_cons.mpr ⟨⟨ahead, behind⟩, fun root member => ?_⟩
    obtain ⟨low, high⟩ := second root member
    exact ⟨by omega, high⟩

/-- In a forest every child stands in front of its parent, and within the forest. -/
theorem child_lt (forest : arena.Forest base stop roots) {index child : Nat} {node : Node}
    (low : base ≤ index) (high : index < stop) (found : arena.get? index = some node)
    (member : child ∈ node.form.children) : base ≤ child ∧ child < index := by
  induction forest with
  | empty => omega
  | @tree base root stop parent roots children here rest first second =>
    by_cases before : index < root
    · exact first low before
    · by_cases same : index = root
      · subst same
        cases here.symm.trans found
        exact children.root_mem child member
      · have ahead := children.base_le
        obtain ⟨bound, descends⟩ := second (by omega) high
        exact ⟨by omega, descends⟩

/-- In a forest every position is a root, or is named as a child exactly once. -/
theorem named_perm (forest : arena.Forest base stop roots) :
    (roots ++ arena.namedBetween base stop).Perm (List.range' base (stop - base)) := by
  induction forest with
  | empty base => simp [namedBetween]
  | @tree base root stop node roots children found rest first second =>
    have ahead := children.base_le
    have behind := rest.base_le
    have split : List.range' base (stop - base) =
        List.range' base (root - base) ++ root :: List.range' (root + 1) (stop - (root + 1)) := by
      have length : stop - base = (root - base) + ((stop - (root + 1)) + 1) := by omega
      rw [length, ← List.range'_append_1, List.range'_succ, Nat.add_sub_of_le ahead]
    have named : arena.namedBetween base stop = arena.namedBetween base root ++
        (node.form.children ++ arena.namedBetween (root + 1) stop) := by
      rw [namedBetween, split, List.flatMap_append, List.flatMap_cons, found]
      rfl
    rw [named, split]
    refine List.perm_iff_count.mpr fun index => ?_
    have inner := first.count_eq index
    have outer := second.count_eq index
    simp only [List.count_append, List.count_cons, List.cons_append] at inner outer ⊢
    omega

end Forest

private theorem flatMap_eq_range {α β : Type} (items : List α) (f : α → List β) :
    items.flatMap f =
      (List.range items.length).flatMap fun index => (items[index]?).elim [] f := by
  induction items with
  | nil => rfl
  | cons item items ih =>
    rw [List.length_cons, List.range_succ_eq_map, List.flatMap_cons, ih, List.flatMap_cons,
      List.flatMap_map]
    rfl

private theorem namedBetween_size (arena : Arena) :
    arena.namedBetween 0 arena.size = arena.named := by
  rw [named, flatMap_eq_range, List.range_eq_range']
  simp only [namedBetween, get?, size, Nat.sub_zero, Array.getElem?_toList, Array.length_toList]

/-- Where the whole store is a forest, no position is named as a child twice. -/
theorem Forest.named_nodup (forest : arena.Forest 0 arena.size roots) : arena.named.Nodup := by
  have all := forest.named_perm
  rw [namedBetween_size, Nat.sub_zero] at all
  exact (List.nodup_append.mp (all.nodup_iff.mpr List.nodup_range')).2.1

/-- Where the whole store is a forest, a child has one parent. -/
theorem Forest.parent_unique (forest : arena.Forest 0 arena.size roots) {index place child : Nat}
    {node other : Node} (found : arena.get? index = some node)
    (member : child ∈ node.form.children) (foundOther : arena.get? place = some other)
    (memberOther : child ∈ other.form.children) : index = place := by
  have apart := (List.pairwise_flatMap.mp forest.named_nodup).2
  rw [List.pairwise_iff_getElem] at apart
  obtain ⟨inside, rfl⟩ := Array.getElem?_eq_some_iff.mp found
  obtain ⟨insideOther, rfl⟩ := Array.getElem?_eq_some_iff.mp foundOther
  rcases Nat.lt_trichotomy index place with before | same | behind
  · exact absurd rfl (apart index place inside insideOther before child member child memberOther)
  · exact same
  · exact absurd rfl (apart place index insideOther inside behind child memberOther child member)

/-- Functions around a body that is one tree are one tree again. -/
theorem functionNodes_forest {body : Nat} {span : Span} (params : List Name)
    (holds : arena.Holds (body + 1) (functionNodes body span params))
    (inner : arena.Forest base (body + 1) [body]) :
    arena.Forest base (body + params.length + 1) [body + params.length] := by
  induction params generalizing body with
  | nil => exact inner
  | cons param outer ih =>
    obtain ⟨here, rest⟩ := holds_cons.mp holds
    have whole := ih rest (inner.root ⟨.function param.text body, span⟩ here)
    rw [List.length_cons, Nat.add_comm outer.length, ← Nat.add_assoc]
    exact whole

end Arena

variable {arena : Arena}

theorem Phrase.forest_of_children {phrase : Phrase} {base : Nat} {outer : Option Span}
    (holds : arena.Holds base (phrase.nodes base outer))
    (children : arena.Forest base (base + phrase.preceding) (phrase.form base).children) :
    arena.Forest base (base + phrase.preceding + 1) [base + phrase.preceding] :=
  Arena.Forest.root ⟨phrase.form base, outer.getD phrase.span⟩ children
    (phrase.root_of_holds holds)

mutual

/-- The nodes of a phrase are one tree. -/
theorem Phrase.forest_of_holds : ∀ (phrase : Phrase) (base : Nat) (outer : Option Span),
    arena.Holds base (phrase.nodes base outer) →
      arena.Forest base (base + phrase.preceding + 1) [base + phrase.preceding]
  | .group _ body _, base, _, holds => body.forest_of_holds base _ holds
  | .literal .., base, _, holds | .name _, base, _, holds =>
    Phrase.forest_of_children holds (.empty base)
  | .list _ items, base, _, holds => by
    refine Phrase.forest_of_children holds ?_
    rw [Phrase.nodes, Arena.holds_append] at holds
    exact items.forest_of_holds base holds.1
  | .letIn _ bindings _ body, base, _, holds => by
    refine Phrase.forest_of_children holds ?_
    simp only [Phrase.nodes, Arena.holds_append, Bindings.nodes_length] at holds
    have bound := bindings.forest_of_holds base holds.1
    have last := body.forest_of_holds _ none holds.2.1
    have whole := bound.append last
    simp only [Phrase.preceding, Phrase.form, Form.children, ← Nat.add_assoc]
    exact whole
  | .function _ first more _ body, base, _, holds => by
    refine Phrase.forest_of_children holds ?_
    simp only [Phrase.nodes, Arena.holds_append, Phrase.nodes_length] at holds
    have layers := Arena.functionNodes_forest more.reverse holds.2.1
      (body.forest_of_holds base none holds.1)
    rw [List.length_reverse] at layers
    simp only [Phrase.preceding, Phrase.form, Form.children]
    rw [← Nat.add_assoc, ← Nat.add_assoc, Nat.add_right_comm _ 1]
    exact layers
  | .print _ operand, base, _, holds | .unary _ _ operand, base, _, holds => by
    refine Phrase.forest_of_children holds ?_
    rw [Phrase.nodes, Arena.holds_append] at holds
    exact operand.forest_of_holds base none holds.1
  | .conditional _ condition _ yes _ no, base, _, holds => by
    refine Phrase.forest_of_children holds ?_
    simp only [Phrase.nodes, Arena.holds_append, Phrase.nodes_length, Nat.add_assoc] at holds
    have first := condition.forest_of_holds base none holds.1
    have second := yes.forest_of_holds _ none holds.2.1
    have third := no.forest_of_holds _ none holds.2.2.1
    simp only [Nat.add_assoc] at first second third
    have whole := (first.append second).append third
    simp only [Phrase.preceding, Phrase.form, Form.children, Nat.add_assoc]
    exact whole
  | .binary first _ _ second, base, _, holds | .application first second, base, _, holds
  | .subscript first _ second _, base, _, holds => by
    refine Phrase.forest_of_children holds ?_
    simp only [Phrase.nodes, Arena.holds_append, Phrase.nodes_length] at holds
    have left := first.forest_of_holds base none holds.1
    have right := second.forest_of_holds _ none holds.2.1
    have whole := left.append right
    simp only [Phrase.preceding, Phrase.form, Form.children, ← Nat.add_assoc]
    exact whole

theorem Items.forest_of_holds : ∀ (items : Items) (base : Nat),
    arena.Holds base (items.nodes base) →
      arena.Forest base (base + items.count) (items.roots base)
  | .close _, base, _ => .empty base
  | .last item _, base, holds => item.forest_of_holds base none holds
  | .more item _ rest, base, holds => by
    simp only [Items.nodes, Arena.holds_append, Phrase.nodes_length] at holds
    have first := item.forest_of_holds base none holds.1
    have others := rest.forest_of_holds _ holds.2
    rw [Items.count, ← Nat.add_assoc]
    exact first.append others

theorem Bindings.forest_of_holds : ∀ (bindings : Bindings) (base : Nat),
    arena.Holds base (bindings.nodes base) →
      arena.Forest base (base + bindings.count) ((bindings.bound base).map LetBinding.value)
  | .last _ _ value, base, holds => value.forest_of_holds base none holds
  | .more _ _ value _ rest, base, holds => by
    simp only [Bindings.nodes, Arena.holds_append, Phrase.nodes_length] at holds
    have first := value.forest_of_holds base none holds.1
    have others := rest.forest_of_holds _ holds.2
    rw [Bindings.count, ← Nat.add_assoc]
    exact first.append others

end

end ClamSyntax
