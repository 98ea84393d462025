import ClamSyntax.Proofs.Arena.Roots

/-! The store edited in place. While a phrase is read, every finished form appends its node, and
parentheses that close widen the node inside them where it stands. The nodes that are there when
the reading begins are never touched, and in the end the store is the one that storing the phrase
at once would give. -/

namespace ClamSyntax

inductive Arena.Edit where
  | push (node : Node)
  | widen (index : Nat) (span : Span)

namespace Arena

def edit (arena : Arena) : Edit → Arena
  | .push node => arena.push node
  | .widen index span => arena.widen index span

/-- The store after the edits, of which the first one is made first. -/
def edited (arena : Arena) (edits : List Edit) : Arena := edits.foldl edit arena

/-- A node that the edit widens stands between these positions. -/
def Edit.Within (first behind : Nat) : Edit → Prop
  | .push _ => True
  | .widen index _ => first ≤ index ∧ index < behind

end Arena

mutual

/-- The edits that the reading of a phrase makes in a store of this size. -/
def Phrase.edits (base : Nat) : Phrase → List Arena.Edit
  | .literal token value => [.push ⟨.literal value, token.span⟩]
  | .name name => [.push ⟨.name name.text, name.span⟩]
  | .list opening items =>
    items.edits base ++
      [.push ⟨(Phrase.list opening items).form base, (Phrase.list opening items).span⟩]
  | .letIn opening bindings inAt body =>
    bindings.edits base ++ (body.edits (base + bindings.count) ++
      [.push ⟨(Phrase.letIn opening bindings inAt body).form base,
        (Phrase.letIn opening bindings inAt body).span⟩])
  | .function opening first more arrow body =>
    body.edits base ++ ((Arena.functionNodes (base + body.preceding)
        (Phrase.function opening first more arrow body).span more.reverse).map .push ++
      [.push ⟨(Phrase.function opening first more arrow body).form base,
        (Phrase.function opening first more arrow body).span⟩])
  | .print opening operand =>
    operand.edits base ++
      [.push ⟨(Phrase.print opening operand).form base, (Phrase.print opening operand).span⟩]
  | .conditional opening condition thenAt yes elseAt no =>
    condition.edits base ++ (yes.edits (base + (condition.preceding + 1)) ++
      (no.edits (base + (condition.preceding + 1 + (yes.preceding + 1))) ++
        [.push ⟨(Phrase.conditional opening condition thenAt yes elseAt no).form base,
          (Phrase.conditional opening condition thenAt yes elseAt no).span⟩]))
  | .unary op opening operand =>
    operand.edits base ++
      [.push ⟨(Phrase.unary op opening operand).form base,
        (Phrase.unary op opening operand).span⟩]
  | .group opening body closing =>
    body.edits base ++ [.widen (base + body.preceding) ⟨opening, closing + 1⟩]
  | .binary left op place right =>
    left.edits base ++ (right.edits (base + (left.preceding + 1)) ++
      [.push ⟨(Phrase.binary left op place right).form base,
        (Phrase.binary left op place right).span⟩])
  | .application callee argument =>
    callee.edits base ++ (argument.edits (base + (callee.preceding + 1)) ++
      [.push ⟨(Phrase.application callee argument).form base,
        (Phrase.application callee argument).span⟩])
  | .subscript target opening index closing =>
    target.edits base ++ (index.edits (base + (target.preceding + 1)) ++
      [.push ⟨(Phrase.subscript target opening index closing).form base,
        (Phrase.subscript target opening index closing).span⟩])

def Items.edits (base : Nat) : Items → List Arena.Edit
  | .close _ => []
  | .last item _ => item.edits base
  | .more item _ rest => item.edits base ++ rest.edits (base + (item.preceding + 1))

def Bindings.edits (base : Nat) : Bindings → List Arena.Edit
  | .last _ _ value => value.edits base
  | .more _ _ value _ rest => value.edits base ++ rest.edits (base + (value.preceding + 1))

end

/-- The edits that the reading of these pieces makes: those of the finished ones. -/
def Piece.edits (base : Nat) : List Piece → List Arena.Edit
  | [] => []
  | .complete phrase :: pieces => phrase.edits base ++ edits (base + (phrase.preceding + 1)) pieces
  | _ :: pieces => edits base pieces

/-! What edits leave as it was -/

namespace Arena

variable {arena : Arena} {base behind : Nat}

private theorem get?_edit {edit : Edit} (fits : base ≤ arena.size)
    (within : edit.Within base behind)
    {index : Nat} (low : index < base) : (arena.edit edit).get? index = arena.get? index := by
  cases edit with
  | push node =>
    rw [Arena.edit, get?_push, if_neg (by omega)]
  | widen place span =>
    have apart : place ≠ index := fun same => absurd within.1 (by omega)
    rw [Arena.edit, widen, get?, Array.getElem?_modify, if_neg apart]
    rfl

private theorem size_le_edit (arena : Arena) (edit : Edit) :
    arena.size ≤ (arena.edit edit).size := by
  cases edit with
  | push node => simp [Arena.edit]
  | widen index span => simp [Arena.edit]

theorem get?_edited {edits : List Edit} (fits : base ≤ arena.size)
    (within : ∀ edit ∈ edits, edit.Within base behind) {index : Nat} (low : index < base) :
    (arena.edited edits).get? index = arena.get? index := by
  induction edits generalizing arena with
  | nil => rfl
  | cons edit edits ih =>
    obtain ⟨here, later⟩ := List.forall_mem_cons.mp within
    have fitsNext := Nat.le_trans fits (arena.size_le_edit edit)
    exact (ih fitsNext later).trans (get?_edit fits here low)

/-- Where the nodes of a store are found as they were, they begin the other store. -/
theorem prefix_of_get? {other : Arena}
    (same : ∀ index < arena.size, other.get? index = arena.get? index) :
    arena.nodes.toList <+: other.nodes.toList := by
  refine List.prefix_iff_getElem?.mpr fun index inside => ?_
  have found : other.nodes[index]? = arena.nodes[index]? := same index inside
  rw [Array.getElem?_toList, found, ← Array.getElem?_toList]
  exact List.getElem?_eq_getElem inside

theorem edited_append (arena : Arena) (first second : List Edit) :
    arena.edited (first ++ second) = (arena.edited first).edited second :=
  List.foldl_append ..

theorem edited_push (arena : Arena) (nodes : List Node) :
    arena.edited (nodes.map .push) = arena.append nodes := by
  induction nodes generalizing arena with
  | nil => exact (append_nil arena).symm
  | cons node nodes ih =>
    exact (ih (arena.push node)).trans (by rw [push_eq_append, append_append]; rfl)

theorem edited_appends {arena : Arena} {first second : List Edit} {nodes more : List Node}
    (start : arena.edited first = arena.append nodes)
    (finish : (arena.append nodes).edited second = (arena.append nodes).append more) :
    arena.edited (first ++ second) = arena.append (nodes ++ more) := by
  rw [edited_append, start, finish, append_append]

end Arena

/-! What the edits of a phrase make of the store -/

theorem Phrase.edited_group {opening closing : Nat} {body : Phrase} {arena : Arena}
    (inOrder : InOrder (Phrase.group opening body closing).tokens)
    (inside : arena.edited (body.edits arena.size) =
      arena.append (body.nodes arena.size none)) :
    arena.edited ((Phrase.group opening body closing).edits arena.size) =
      arena.append ((Phrase.group opening body closing).nodes arena.size none) := by
  obtain ⟨ahead, behind⟩ := group_laid_out inOrder
  have covers : body.span.cover ⟨opening, closing + 1⟩ = ⟨opening, closing + 1⟩ := by
    rw [Span.cover, Nat.min_eq_right (by simp only; omega), Nat.max_eq_right (by simp only; omega)]
  have widened := Phrase.widen_root covers arena
  rw [body.store_eq, body.store_eq] at widened
  rw [Phrase.edits, Arena.edited_append, inside]
  exact widened

section

open Phrase (Frame)

mutual

/-- The edits of a phrase append its nodes to a store of the right size. -/
theorem Phrase.edited_edits : ∀ (phrase : Phrase) {arena : Arena} {base : Nat},
    arena.size = base → InOrder phrase.tokens →
      arena.edited (phrase.edits base) = arena.append (phrase.nodes base none)
  | .literal .., arena, _, _, _ | .name _, arena, _, _, _ => arena.push_eq_append _
  | .group opening body closing, _, _, rfl, inOrder =>
    have inside := inOrder.sublist (Frame.tokens_sublist (.grouped opening closing) body)
    Phrase.edited_group inOrder (body.edited_edits rfl inside)
  | .list _ items, _, _, size, inOrder =>
    Arena.edited_appends (items.edited_edits size (inOrder.sublist (List.sublist_cons_self ..)))
      (Arena.edited_push _ [_])
  | .print _ operand, _, _, size, inOrder | .unary _ _ operand, _, _, size, inOrder =>
    Arena.edited_appends (operand.edited_edits size (inOrder.sublist (List.sublist_cons_self ..)))
      (Arena.edited_push _ [_])
  | .letIn opening bindings inAt body, _, _, size, inOrder =>
    have front := (List.sublist_append_left bindings.tokens _).trans (List.sublist_cons_self ..)
    have first := bindings.edited_edits size (inOrder.sublist front)
    have second := body.edited_edits (by simp [size])
      (inOrder.sublist (Frame.tokens_sublist (.letBody opening bindings inAt) body))
    Arena.edited_appends first (Arena.edited_appends second (Arena.edited_push _ [_]))
  | .function opening param more arrow body, _, _, size, inOrder =>
    have first := body.edited_edits size
      (inOrder.sublist (Frame.tokens_sublist (.functionBody opening param more arrow) body))
    Arena.edited_appends first
      (Arena.edited_appends (Arena.edited_push _ _) (Arena.edited_push _ [_]))
  | .conditional opening condition thenAt yes elseAt no, _, _, size, inOrder =>
    have first := condition.edited_edits size
      (inOrder.sublist (Frame.tokens_sublist (.test opening thenAt yes elseAt no) condition))
    have second := yes.edited_edits (by simp [size])
      (inOrder.sublist (Frame.tokens_sublist (.thenBranch opening condition thenAt elseAt no) yes))
    have third := no.edited_edits (by simp [size, Nat.add_assoc])
      (inOrder.sublist (Frame.tokens_sublist (.elseBranch opening condition thenAt yes elseAt) no))
    Arena.edited_appends first
      (Arena.edited_appends second (Arena.edited_appends third (Arena.edited_push _ [_])))
  | .binary left op place right, _, _, size, inOrder =>
    have first := left.edited_edits size
      (inOrder.sublist (Frame.tokens_sublist (.leftOperand op place right) left))
    have second := right.edited_edits (by simp [size])
      (inOrder.sublist (Frame.tokens_sublist (.rightOperand left op place) right))
    Arena.edited_appends first (Arena.edited_appends second (Arena.edited_push _ [_]))
  | .application callee argument, _, _, size, inOrder =>
    have first := callee.edited_edits size
      (inOrder.sublist (Frame.tokens_sublist (.called argument) callee))
    have second := argument.edited_edits (by simp [size])
      (inOrder.sublist (Frame.tokens_sublist (.passed callee) argument))
    Arena.edited_appends first (Arena.edited_appends second (Arena.edited_push _ [_]))
  | .subscript target opening index closing, _, _, size, inOrder =>
    have first := target.edited_edits size
      (inOrder.sublist (Frame.tokens_sublist (.subscripted opening index closing) target))
    have second := index.edited_edits (by simp [size])
      (inOrder.sublist (Frame.tokens_sublist (.position target opening closing) index))
    Arena.edited_appends first (Arena.edited_appends second (Arena.edited_push _ [_]))

theorem Items.edited_edits : ∀ (items : Items) {arena : Arena} {base : Nat},
    arena.size = base → InOrder items.tokens →
      arena.edited (items.edits base) = arena.append (items.nodes base)
  | .close _, arena, _, _, _ => (Arena.append_nil arena).symm
  | .last item _, _, _, size, inOrder =>
    item.edited_edits size (inOrder.sublist (List.sublist_append_left ..))
  | .more item comma rest, _, _, size, inOrder =>
    have back := (List.sublist_cons_self (Symbol.comma.at comma) rest.tokens).trans
      (List.sublist_append_right item.tokens _)
    Arena.edited_appends
      (item.edited_edits size (inOrder.sublist (List.sublist_append_left ..)))
      (rest.edited_edits (by simp [size]) (inOrder.sublist back))

theorem Bindings.edited_edits : ∀ (bindings : Bindings) {arena : Arena} {base : Nat},
    arena.size = base → InOrder bindings.tokens →
      arena.edited (bindings.edits base) = arena.append (bindings.nodes base)
  | .last name assign value, _, _, size, inOrder =>
    value.edited_edits size (inOrder.sublist (List.sublist_append_right [_, _] value.tokens))
  | .more name assign value comma rest, _, _, size, inOrder =>
    have front :=
      (List.sublist_append_left value.tokens (Symbol.comma.at comma :: rest.tokens)).trans
        (List.sublist_append_right [name.token, Symbol.assign.at assign] _)
    have back := ((List.sublist_cons_self (Symbol.comma.at comma) rest.tokens).trans
      (List.sublist_append_right value.tokens _)).trans
        (List.sublist_append_right [name.token, Symbol.assign.at assign] _)
    Arena.edited_appends (value.edited_edits size (inOrder.sublist front))
      (rest.edited_edits (by simp [size]) (inOrder.sublist back))

end

end

theorem Piece.edited_edits : ∀ (pieces : List Piece) {arena : Arena} {base : Nat},
    arena.size = base → InOrder (pieces.flatMap Piece.tokens) →
      arena.edited (Piece.edits base pieces) = Piece.storeAll arena pieces
  | [], _, _, _, _ => rfl
  | .opening _ :: pieces, _, _, size, inOrder | .inner _ :: pieces, _, _, size, inOrder =>
    edited_edits pieces size (inOrder.sublist (List.sublist_cons_self ..))
  | .complete phrase :: pieces, arena, base, size, inOrder => by
    have first := phrase.edited_edits size (inOrder.sublist (List.sublist_append_left ..))
    have others := edited_edits pieces
      (show (arena.append (phrase.nodes base none)).size = base + (phrase.preceding + 1) by
        simp [size])
      (inOrder.sublist (List.sublist_append_right ..))
    rw [Piece.edits, Arena.edited_append, first, others]
    change _ = Piece.storeAll (phrase.store arena none).arena pieces
    rw [phrase.store_eq, size]

/-! Where the nodes stand that a phrase widens -/

namespace Arena

variable {base behind : Nat}

theorem within_push (nodes : List Node) :
    ∀ edit ∈ nodes.map Edit.push, edit.Within base behind :=
  List.forall_mem_map.mpr fun _ _ => trivial

theorem within_parts {first second : List Edit} (nodes : List Node)
    (start : ∀ edit ∈ first, edit.Within base behind)
    (finish : ∀ edit ∈ second, edit.Within base behind) :
    ∀ edit ∈ first ++ (second ++ nodes.map Edit.push), edit.Within base behind :=
  List.forall_mem_append.mpr ⟨start, List.forall_mem_append.mpr ⟨finish, within_push nodes⟩⟩

end Arena

mutual

/-- A phrase widens nodes of its own only. -/
theorem Phrase.edits_within : ∀ (phrase : Phrase) {base low behind : Nat}, low ≤ base →
    base + (phrase.preceding + 1) ≤ behind → ∀ edit ∈ phrase.edits base, edit.Within low behind
  | .literal .., _, _, _, _, _ | .name _, _, _, _, _, _ => Arena.within_push [_]
  | .group _ body _, _, _, _, below, room =>
    List.forall_mem_append.mpr ⟨body.edits_within below room,
      List.forall_mem_singleton.mpr ⟨Nat.le_add_right_of_le below, room⟩⟩
  | .list _ items, _, _, _, below, room =>
    List.forall_mem_append.mpr ⟨items.edits_within below (Nat.le_of_succ_le room),
      Arena.within_push [_]⟩
  | .print _ operand, _, _, _, below, room | .unary _ _ operand, _, _, _, below, room =>
    List.forall_mem_append.mpr ⟨operand.edits_within below (Nat.le_of_succ_le room),
      Arena.within_push [_]⟩
  | .letIn _ bindings _ body, _, _, _, below, room => by
    simp only [Phrase.preceding] at room
    exact Arena.within_parts [_] (bindings.edits_within below (by omega))
      (body.edits_within (by omega) (by omega))
  | .function _ _ more _ body, _, _, _, below, room => by
    simp only [Phrase.preceding] at room
    exact Arena.within_parts [_] (body.edits_within below (by omega)) (Arena.within_push _)
  | .conditional _ condition _ yes _ no, _, _, _, below, room => by
    simp only [Phrase.preceding] at room
    exact List.forall_mem_append.mpr ⟨condition.edits_within below (by omega),
      Arena.within_parts [_] (yes.edits_within (by omega) (by omega))
        (no.edits_within (by omega) (by omega))⟩
  | .binary left _ _ right, _, _, _, below, room => by
    simp only [Phrase.preceding] at room
    exact Arena.within_parts [_] (left.edits_within below (by omega))
      (right.edits_within (by omega) (by omega))
  | .application callee argument, _, _, _, below, room => by
    simp only [Phrase.preceding] at room
    exact Arena.within_parts [_] (callee.edits_within below (by omega))
      (argument.edits_within (by omega) (by omega))
  | .subscript target _ index _, _, _, _, below, room => by
    simp only [Phrase.preceding] at room
    exact Arena.within_parts [_] (target.edits_within below (by omega))
      (index.edits_within (by omega) (by omega))

theorem Items.edits_within : ∀ (items : Items) {base low behind : Nat}, low ≤ base →
    base + items.count ≤ behind → ∀ edit ∈ items.edits base, edit.Within low behind
  | .close _, _, _, _, _, _ => nofun
  | .last item _, _, _, _, below, room => item.edits_within below room
  | .more item _ rest, _, _, _, below, room => by
    simp only [Items.count] at room
    exact List.forall_mem_append.mpr ⟨item.edits_within below (by omega),
      rest.edits_within (by omega) (by omega)⟩

theorem Bindings.edits_within : ∀ (bindings : Bindings) {base low behind : Nat}, low ≤ base →
    base + bindings.count ≤ behind → ∀ edit ∈ bindings.edits base, edit.Within low behind
  | .last _ _ value, _, _, _, below, room => value.edits_within below room
  | .more _ _ value _ rest, _, _, _, below, room => by
    simp only [Bindings.count] at room
    exact List.forall_mem_append.mpr ⟨value.edits_within below (by omega),
      rest.edits_within (by omega) (by omega)⟩

end

private theorem Piece.size_le_storeAll (pieces : List Piece) (arena : Arena) :
    arena.size ≤ (Piece.storeAll arena pieces).size := by
  induction pieces generalizing arena with
  | nil => exact Nat.le_refl _
  | cons piece pieces ih =>
    cases piece with
    | opening token => exact ih arena
    | inner token => exact ih arena
    | complete phrase =>
      refine Nat.le_trans ?_ (ih (phrase.store arena none).arena)
      rw [phrase.store_eq, Arena.size_append]
      exact Nat.le_add_right ..

/-- So do the finished ones of some pieces. -/
theorem Piece.edits_within : ∀ (pieces : List Piece) {arena : Arena} {base low : Nat},
    arena.size = base → low ≤ base →
      ∀ edit ∈ Piece.edits base pieces, edit.Within low (Piece.storeAll arena pieces).size
  | [], _, _, _, _, _ => nofun
  | .opening _ :: pieces, _, _, _, size, below | .inner _ :: pieces, _, _, _, size, below =>
    edits_within pieces size below
  | .complete phrase :: pieces, arena, base, _, size, below => by
    have next : (phrase.store arena none).arena.size = base + (phrase.preceding + 1) := by
      rw [phrase.store_eq, Arena.size_append, Phrase.nodes_length, size]
    have room := size_le_storeAll pieces (phrase.store arena none).arena
    rw [next] at room
    exact List.forall_mem_append.mpr ⟨phrase.edits_within below room,
      edits_within pieces next (Nat.le_add_right_of_le below)⟩

end ClamSyntax
