import ClamSyntax.Proofs.Arena.Contents

/-! The parts of a stored phrase. A cell is a part with the position from which it is
stored and the range of the parentheses around it. All that is known of a phrase passes on
to its cells, and every node is the root of a cell or one of the functions that a function
of several parameters has inside. -/

namespace ClamSyntax

def Phrase.IsGroup : Phrase → Prop
  | .group .. => True
  | _ => False

structure Cell where
  base : Nat
  outer : Option Span
  phrase : Phrase

def Items.cells (base : Nat) : Items → List Cell
  | .close _ => []
  | .last item _ => [⟨base, none, item⟩]
  | .more item _ rest => ⟨base, none, item⟩ :: rest.cells (base + (item.preceding + 1))

def Bindings.cells (base : Nat) : Bindings → List Cell
  | .last _ _ value => [⟨base, none, value⟩]
  | .more _ _ value _ rest => ⟨base, none, value⟩ :: rest.cells (base + (value.preceding + 1))

namespace Cell

def root (cell : Cell) : Nat := cell.base + cell.phrase.preceding

/-- The node of the cell is the one at this position, or stands before it. -/
def Covers (cell : Cell) (index : Nat) : Prop := cell.base ≤ index ∧ index ≤ cell.root

def StoredIn (arena : Arena) (cell : Cell) : Prop :=
  arena.Holds cell.base (cell.phrase.nodes cell.base cell.outer)

/-- The tokens of the phrase, behind the parenthesis at which its range starts. -/
def tokens (cell : Cell) : List Token :=
  match cell.outer with
  | none => cell.phrase.tokens
  | some span => Symbol.leftParen.at span.start :: cell.phrase.tokens

def children : Cell → List Cell
  | ⟨_, _, .literal ..⟩ | ⟨_, _, .name _⟩ => []
  | ⟨base, _, .list _ items⟩ => items.cells base
  | ⟨base, _, .letIn _ bindings _ body⟩ =>
    bindings.cells base ++ [⟨base + bindings.count, none, body⟩]
  | ⟨base, _, .function _ _ _ _ body⟩ => [⟨base, none, body⟩]
  | ⟨base, _, .print _ operand⟩ => [⟨base, none, operand⟩]
  | ⟨base, _, .conditional _ condition _ yes _ no⟩ =>
    [⟨base, none, condition⟩, ⟨base + (condition.preceding + 1), none, yes⟩,
      ⟨base + (condition.preceding + 1 + (yes.preceding + 1)), none, no⟩]
  | ⟨base, _, .unary _ _ operand⟩ => [⟨base, none, operand⟩]
  | ⟨base, outer, .group opening body closing⟩ =>
    [⟨base, some (outer.getD ⟨opening, closing + 1⟩), body⟩]
  | ⟨base, _, .binary left _ _ right⟩ =>
    [⟨base, none, left⟩, ⟨base + (left.preceding + 1), none, right⟩]
  | ⟨base, _, .application callee argument⟩ =>
    [⟨base, none, callee⟩, ⟨base + (callee.preceding + 1), none, argument⟩]
  | ⟨base, _, .subscript target _ index _⟩ =>
    [⟨base, none, target⟩, ⟨base + (target.preceding + 1), none, index⟩]

/-- The first cell is the second one or a part of it. -/
inductive Within (part : Cell) : Cell → Prop
  | here : Within part part
  | child {whole cell : Cell} : cell ∈ whole.children → Within part cell → Within part whole

end Cell

/-! Lists of items and of bindings -/

section Lists

variable {arena : Arena}

private theorem Items.storedIn_cells : ∀ (items : Items) (base : Nat),
    arena.Holds base (items.nodes base) → ∀ cell ∈ items.cells base, cell.StoredIn arena
  | .close _, _, _ => nofun
  | .last item _, base, holds => List.forall_mem_singleton.mpr holds
  | .more item _ rest, base, holds => by
    simp only [Items.nodes, Arena.holds_append, Phrase.nodes_length] at holds
    exact List.forall_mem_cons.mpr ⟨holds.1, rest.storedIn_cells _ holds.2⟩

private theorem Bindings.storedIn_cells : ∀ (bindings : Bindings) (base : Nat),
    arena.Holds base (bindings.nodes base) → ∀ cell ∈ bindings.cells base, cell.StoredIn arena
  | .last _ _ value, base, holds => List.forall_mem_singleton.mpr holds
  | .more _ _ value _ rest, base, holds => by
    simp only [Bindings.nodes, Arena.holds_append, Phrase.nodes_length] at holds
    exact List.forall_mem_cons.mpr ⟨holds.1, rest.storedIn_cells _ holds.2⟩

private theorem Items.grammatical_cells : ∀ (items : Items) (base : Nat), items.Grammatical →
    ∀ cell ∈ items.cells base, cell.phrase.Grammatical
  | .close _, _, _ => nofun
  | .last _ _, _, grammatical => List.forall_mem_singleton.mpr grammatical
  | .more _ _ rest, _, grammatical =>
    List.forall_mem_cons.mpr ⟨grammatical.1, rest.grammatical_cells _ grammatical.2⟩

private theorem Bindings.grammatical_cells :
    ∀ (bindings : Bindings) (base : Nat), bindings.Grammatical →
    ∀ cell ∈ bindings.cells base, cell.phrase.Grammatical
  | .last .., _, grammatical => List.forall_mem_singleton.mpr grammatical
  | .more _ _ _ _ rest, _, grammatical =>
    List.forall_mem_cons.mpr ⟨grammatical.1, rest.grammatical_cells _ grammatical.2⟩

private theorem Items.tokens_cells : ∀ (items : Items) (base : Nat),
    ∀ cell ∈ items.cells base, cell.tokens.Sublist items.tokens
  | .close _, _ => nofun
  | .last _ _, _ => List.forall_mem_singleton.mpr (List.sublist_append_left ..)
  | .more _ _ rest, base => by
    refine List.forall_mem_cons.mpr ⟨List.sublist_append_left .., fun cell member => ?_⟩
    exact ((rest.tokens_cells _ cell member).cons _).trans (List.sublist_append_right ..)

private theorem Bindings.tokens_cells : ∀ (bindings : Bindings) (base : Nat),
    ∀ cell ∈ bindings.cells base, cell.tokens.Sublist bindings.tokens
  | .last _ _ value, _ =>
    List.forall_mem_singleton.mpr (((List.Sublist.refl value.tokens).cons _).cons _)
  | .more _ _ value comma rest, base => by
    refine List.forall_mem_cons.mpr ⟨?_, fun cell member => ?_⟩
    · exact ((List.sublist_append_left value.tokens _).cons _).cons _
    · have inner := (rest.tokens_cells _ cell member).cons (Symbol.comma.at comma)
      exact ((inner.trans (List.sublist_append_right ..)).cons _).cons _

private theorem Items.sizeOf_cells : ∀ (items : Items) (base : Nat),
    ∀ cell ∈ items.cells base, sizeOf cell.phrase < sizeOf items
  | .close _, _ => nofun
  | .last .., _ => List.forall_mem_singleton.mpr (by simp only [Items.last.sizeOf_spec]; omega)
  | .more _ _ rest, base => by
    simp only [Items.more.sizeOf_spec]
    refine List.forall_mem_cons.mpr ⟨by simp only; omega, fun cell member => ?_⟩
    have inner := rest.sizeOf_cells _ cell member
    omega

private theorem Bindings.sizeOf_cells : ∀ (bindings : Bindings) (base : Nat),
    ∀ cell ∈ bindings.cells base, sizeOf cell.phrase < sizeOf bindings
  | .last .., _ => List.forall_mem_singleton.mpr (by simp only [Bindings.last.sizeOf_spec]; omega)
  | .more _ _ _ _ rest, base => by
    simp only [Bindings.more.sizeOf_spec]
    refine List.forall_mem_cons.mpr ⟨by simp only; omega, fun cell member => ?_⟩
    have inner := rest.sizeOf_cells _ cell member
    omega

private theorem Items.covered : ∀ (items : Items) (base index : Nat), base ≤ index →
    index < base + items.count → ∃ cell ∈ items.cells base, cell.Covers index
  | .close _, base, index, low, high => absurd low (Nat.not_le.mpr high)
  | .last item _, base, index, low, high =>
    ⟨_, List.mem_singleton_self _, low, Nat.le_of_lt_succ high⟩
  | .more item _ rest, base, index, low, high => by
    by_cases inside : index ≤ base + item.preceding
    · exact ⟨_, List.mem_cons_self, low, inside⟩
    · have high' : index < base + (item.preceding + 1) + rest.count := by
        simp only [Items.count] at high
        omega
      obtain ⟨cell, member, covers⟩ := rest.covered _ index (by omega) high'
      exact ⟨cell, List.mem_cons_of_mem _ member, covers⟩

private theorem Bindings.covered : ∀ (bindings : Bindings) (base index : Nat), base ≤ index →
    index < base + bindings.count → ∃ cell ∈ bindings.cells base, cell.Covers index
  | .last .., base, index, low, high =>
    ⟨_, List.mem_singleton_self _, low, Nat.le_of_lt_succ high⟩
  | .more _ _ value _ rest, base, index, low, high => by
    by_cases inside : index ≤ base + value.preceding
    · exact ⟨_, List.mem_cons_self, low, inside⟩
    · have high' : index < base + (value.preceding + 1) + rest.count := by
        simp only [Bindings.count] at high
        omega
      obtain ⟨cell, member, covers⟩ := rest.covered _ index (by omega) high'
      exact ⟨cell, List.mem_cons_of_mem _ member, covers⟩

end Lists

namespace Cell

variable {arena : Arena} {cell : Cell}

theorem storedIn_children (stored : cell.StoredIn arena) :
    ∀ child ∈ cell.children, child.StoredIn arena := by
  obtain ⟨base, outer, phrase⟩ := cell
  simp only [StoredIn] at stored
  cases phrase with
  | literal => exact nofun
  | name => exact nofun
  | list _ items => exact items.storedIn_cells base (Arena.holds_append.mp stored).1
  | letIn _ bindings _ body =>
    simp only [Phrase.nodes, Arena.holds_append, Bindings.nodes_length] at stored
    exact List.forall_mem_append.mpr
      ⟨bindings.storedIn_cells base stored.1, List.forall_mem_singleton.mpr stored.2.1⟩
  | function | print | unary =>
    exact List.forall_mem_singleton.mpr (Arena.holds_append.mp stored).1
  | group => exact List.forall_mem_singleton.mpr stored
  | conditional =>
    simp only [Phrase.nodes, Arena.holds_append, Phrase.nodes_length, Nat.add_assoc] at stored
    simp only [children, List.forall_mem_cons, List.not_mem_nil, StoredIn, Nat.add_assoc]
    exact ⟨stored.1, stored.2.1, stored.2.2.1, fun _ member => member.elim⟩
  | binary | application | subscript =>
    simp only [Phrase.nodes, Arena.holds_append, Phrase.nodes_length] at stored
    exact List.forall_mem_cons.mpr ⟨stored.1, List.forall_mem_singleton.mpr stored.2.1⟩

private theorem grammatical_children (grammatical : cell.phrase.Grammatical) :
    ∀ child ∈ cell.children, child.phrase.Grammatical := by
  obtain ⟨base, outer, phrase⟩ := cell
  cases phrase with
  | literal => exact nofun
  | name => exact nofun
  | list _ items => exact items.grammatical_cells base grammatical
  | letIn _ bindings _ body =>
    exact List.forall_mem_append.mpr
      ⟨bindings.grammatical_cells base grammatical.1, List.forall_mem_singleton.mpr grammatical.2⟩
  | function | print | group => exact List.forall_mem_singleton.mpr grammatical
  | unary => exact List.forall_mem_singleton.mpr grammatical.1
  | conditional =>
    simp only [children, List.forall_mem_cons]
    exact ⟨grammatical.1, grammatical.2.1, grammatical.2.2, nofun⟩
  | binary | application | subscript =>
    exact List.forall_mem_cons.mpr ⟨grammatical.1, List.forall_mem_singleton.mpr grammatical.2.1⟩

private theorem phrase_tokens_sublist (cell : Cell) : cell.phrase.tokens.Sublist cell.tokens := by
  rw [tokens]
  split
  · exact .refl _
  · exact (List.Sublist.refl _).cons _

theorem tokens_children (cell : Cell) :
    ∀ child ∈ cell.children, child.tokens.Sublist cell.tokens := by
  obtain ⟨base, outer, phrase⟩ := cell
  have whole := phrase_tokens_sublist ⟨base, outer, phrase⟩
  cases phrase with
  | literal => exact nofun
  | name => exact nofun
  | list _ items =>
    intro child member
    exact ((items.tokens_cells base child member).cons _).trans whole
  | letIn opening bindings inAt body =>
    refine List.forall_mem_append.mpr ⟨?_, List.forall_mem_singleton.mpr ?_⟩
    · intro child member
      have inner := (bindings.tokens_cells base child member).trans
        (List.sublist_append_left _ (Symbol.kwIn.at inAt :: body.tokens))
      exact (inner.cons _).trans whole
    · have inner := ((List.Sublist.refl body.tokens).cons (Symbol.kwIn.at inAt)).trans
        (List.sublist_append_right bindings.tokens _)
      exact (inner.cons _).trans whole
  | function opening first more arrow body =>
    have inner := ((List.Sublist.refl body.tokens).cons (Symbol.arrow.at arrow)).trans
      (List.sublist_append_right (more.map Name.token) _)
    exact List.forall_mem_singleton.mpr (((inner.cons _).cons _).trans whole)
  | print | unary =>
    exact List.forall_mem_singleton.mpr (((List.Sublist.refl _).cons _).trans whole)
  | group opening body closing =>
    have inner := List.sublist_append_left body.tokens [Symbol.rightParen.at closing]
    cases outer with
    | none => exact List.forall_mem_singleton.mpr (inner.cons_cons _)
    | some span => exact List.forall_mem_singleton.mpr ((inner.cons _).cons_cons _)
  | conditional opening condition thenAt yes elseAt no =>
    have last := ((List.Sublist.refl no.tokens).cons (Symbol.kwElse.at elseAt)).trans
      (List.sublist_append_right yes.tokens _)
    have middle := List.sublist_append_left yes.tokens (Symbol.kwElse.at elseAt :: no.tokens)
    have behind {part : List Token}
        (inner : part.Sublist (yes.tokens ++ Symbol.kwElse.at elseAt :: no.tokens)) :=
      (((inner.cons (Symbol.kwThen.at thenAt)).trans
        (List.sublist_append_right condition.tokens _)).cons (Symbol.kwIf.at opening)).trans whole
    have first := ((List.sublist_append_left condition.tokens _).cons _).trans whole
    simp only [children, List.forall_mem_cons]
    exact ⟨first, behind middle, behind last, nofun⟩
  | binary left op place right =>
    refine List.forall_mem_cons.mpr ⟨?_, List.forall_mem_singleton.mpr ?_⟩
    · exact (List.sublist_append_left ..).trans whole
    · have inner := (List.Sublist.refl right.tokens).cons ((Symbol.binary op).at place)
      exact (inner.trans (List.sublist_append_right left.tokens _)).trans whole
  | application callee argument =>
    refine List.forall_mem_cons.mpr ⟨?_, List.forall_mem_singleton.mpr ?_⟩
    · exact (List.sublist_append_left ..).trans whole
    · exact (List.sublist_append_right callee.tokens argument.tokens).trans whole
  | subscript target opening index closing =>
    refine List.forall_mem_cons.mpr ⟨?_, List.forall_mem_singleton.mpr ?_⟩
    · exact (List.sublist_append_left ..).trans whole
    · have inner := (List.sublist_append_left index.tokens [Symbol.rightBracket.at closing]).cons
        (Symbol.leftBracket.at opening)
      exact (inner.trans (List.sublist_append_right target.tokens _)).trans whole

private theorem covered {index : Nat} (covers : cell.Covers index) :
    (∃ child ∈ cell.children, child.Covers index) ∨
    (index = cell.root ∧ ¬ cell.phrase.IsGroup) ∨
    ∃ opening first more arrow body, cell.phrase = .function opening first more arrow body ∧
      cell.base + body.preceding < index ∧ index < cell.root := by
  obtain ⟨base, outer, phrase⟩ := cell
  obtain ⟨low, high⟩ := covers
  simp only [root] at low high
  by_cases last : index = base + phrase.preceding
  · cases phrase with
    | group opening body closing => exact .inl ⟨_, List.mem_singleton_self _, low, high⟩
    | _ => exact .inr (.inl ⟨last, id⟩)
  cases phrase with
  | literal | name =>
    simp only [Phrase.preceding] at last high
    omega
  | list _ items =>
    simp only [Phrase.preceding] at last high
    exact .inl (items.covered base index low (by omega))
  | letIn _ bindings _ body =>
    simp only [Phrase.preceding] at last high
    left
    by_cases inside : index < base + bindings.count
    · obtain ⟨child, member, covers⟩ := bindings.covered base index low inside
      exact ⟨child, List.mem_append_left _ member, covers⟩
    · exact ⟨_, List.mem_append_right _ List.mem_cons_self, Nat.not_lt.mp inside,
        by simp only [root]; omega⟩
  | function opening first more arrow body =>
    by_cases inside : index ≤ base + body.preceding
    · exact .inl ⟨_, List.mem_singleton_self _, low, inside⟩
    · refine .inr (.inr ⟨opening, first, more, arrow, body, rfl, Nat.not_le.mp inside, ?_⟩)
      simp only [root]
      omega
  | print _ operand | unary _ _ operand =>
    simp only [Phrase.preceding] at last high
    exact .inl ⟨_, List.mem_singleton_self _, low, by simp only [root]; omega⟩
  | group => exact .inl ⟨_, List.mem_singleton_self _, low, high⟩
  | conditional opening condition thenAt yes elseAt no =>
    simp only [Phrase.preceding] at last high
    left
    by_cases first : index ≤ base + condition.preceding
    · exact ⟨_, List.mem_cons_self, low, first⟩
    by_cases second : index ≤ base + (condition.preceding + 1) + yes.preceding
    · exact ⟨_, List.mem_cons_of_mem _ List.mem_cons_self, by simp only; omega, second⟩
    · exact ⟨_, List.mem_cons_of_mem _ (List.mem_cons_of_mem _ List.mem_cons_self),
        by simp only; omega, by simp only [root]; omega⟩
  | binary first _ _ second | application first second | subscript first _ second _ =>
    simp only [Phrase.preceding] at last high
    left
    by_cases inside : index ≤ base + first.preceding
    · exact ⟨_, List.mem_cons_self, low, inside⟩
    · exact ⟨_, List.mem_cons_of_mem _ List.mem_cons_self, by simp only; omega,
        by simp only [root]; omega⟩

theorem sizeOf_children (cell : Cell) :
    ∀ child ∈ cell.children, sizeOf child.phrase < sizeOf cell.phrase := by
  obtain ⟨base, outer, phrase⟩ := cell
  cases phrase with
  | list opening items =>
    intro child member
    have inner := items.sizeOf_cells base child member
    simp only [Phrase.list.sizeOf_spec]
    omega
  | letIn opening bindings inAt body =>
    intro child member
    simp only [Phrase.letIn.sizeOf_spec]
    rcases List.mem_append.mp member with bound | last
    · have inner := bindings.sizeOf_cells base child bound
      omega
    · cases List.mem_singleton.mp last
      simp only
      omega
  | _ => simp [children] <;> omega

variable {part whole : Cell}

theorem Within.storedIn (within : part.Within whole) (stored : whole.StoredIn arena) :
    part.StoredIn arena := by
  induction within with
  | here => exact stored
  | child member _ ih => exact ih (storedIn_children stored _ member)

theorem Within.grammatical (within : part.Within whole) (grammatical : whole.phrase.Grammatical) :
    part.phrase.Grammatical := by
  induction within with
  | here => exact grammatical
  | child member _ ih => exact ih (grammatical_children grammatical _ member)

theorem Within.tokens_sublist (within : part.Within whole) : part.tokens.Sublist whole.tokens := by
  induction within with
  | here => exact .refl _
  | child member _ ih => exact ih.trans (tokens_children _ _ member)

/-- Every node is the root of a cell or a function inside one. -/
theorem exists_within (index : Nat) : ∀ whole : Cell, whole.Covers index →
    ∃ part : Cell, part.Within whole ∧
      ((index = part.root ∧ ¬ part.phrase.IsGroup) ∨
      ∃ opening first more arrow body, part.phrase = .function opening first more arrow body ∧
        part.base + body.preceding < index ∧ index < part.root)
  | whole, covers => by
    rcases covered covers with ⟨child, member, inner⟩ | here
    · have smaller := sizeOf_children whole child member
      obtain ⟨part, within, found⟩ := exists_within index child inner
      exact ⟨part, .child member within, found⟩
    · exact ⟨whole, .here, here⟩
termination_by whole => sizeOf whole.phrase

private theorem mem_functionNodes (params : List Name) (body : Nat) (span : Span) :
    ∀ node ∈ Arena.functionNodes body span params,
      ∃ param ∈ params, ∃ inner, node = ⟨.function param.text inner, span⟩ := by
  induction params generalizing body with
  | nil => exact nofun
  | cons param outer ih =>
    refine List.forall_mem_cons.mpr ⟨⟨param, List.mem_cons_self, body, rfl⟩, ?_⟩
    intro node member
    obtain ⟨other, listed, same⟩ := ih (body + 1) node member
    exact ⟨other, List.mem_cons_of_mem _ listed, same⟩

theorem exists_param {index opening arrow : Nat} {first : Name} {more : List Name}
    {body : Phrase} (stored : cell.StoredIn arena)
    (isFunction : cell.phrase = .function opening first more arrow body)
    (low : cell.base + body.preceding < index) (high : index < cell.root) :
    ∃ param ∈ more, ∃ inner span, arena.get? index = some ⟨.function param.text inner, span⟩ := by
  simp only [StoredIn, root, isFunction, Phrase.nodes, Phrase.preceding, Arena.holds_append,
    Phrase.nodes_length] at stored high
  obtain ⟨place, rfl⟩ := Nat.exists_eq_add_of_lt low
  have inside : place < (Arena.functionNodes (cell.base + body.preceding)
      (Phrase.function opening first more arrow body).span more.reverse).length := by
    rw [Arena.functionNodes_length, List.length_reverse]
    omega
  obtain ⟨param, listed, inner, same⟩ := mem_functionNodes _ _ _ _ (List.getElem_mem inside)
  have found := stored.2.1 place _ (List.getElem?_eq_getElem inside)
  rw [same] at found
  rw [Nat.add_right_comm _ place 1]
  exact ⟨param, List.mem_reverse.mp listed, inner, _, found⟩

theorem inner_function {index opening arrow : Nat} {first : Name} {more : List Name}
    {body : Phrase} (stored : cell.StoredIn arena)
    (isFunction : cell.phrase = .function opening first more arrow body)
    (low : cell.base + body.preceding < index) (high : index < cell.root) :
    ∃ node, arena.get? index = some node ∧ ∃ param inner, node.form = .function param inner := by
  obtain ⟨param, -, inner, span, found⟩ := exists_param stored isFunction low high
  exact ⟨_, found, param.text, inner, rfl⟩

end Cell

end ClamSyntax
