import ClamSyntax.Proofs.Arena.PostOrder
import ClamSyntax.Proofs.Arena.Widening

/-! Functions of several parameters. Such a function is stored as a chain of layers, each the
body of the next one, and only the outermost layer is the root of a phrase. The ranges tell
layers from functions that were written one inside the other: there a `fun` stands between
the starts of the two. -/

namespace ClamSyntax

/-- The positions hold neighbouring layers of one function: the second one has the first one
as its body, and no `fun` stands between their starts. -/
def Arena.Curried (arena : Arena) (tokens : List Token) (inner outer : Nat) : Prop :=
  ∃ (param other : String) (body : Nat) (first second : Span),
    arena.get? inner = some ⟨.function param body, first⟩ ∧
      arena.get? outer = some ⟨.function other inner, second⟩ ∧
      ∀ token ∈ tokens, second.start ≤ token.start → token.start < first.start →
        token.lexeme ≠ .symbol .kwFun

/-! The chain of layers -/

private theorem Arena.functionNodes_getElem? (body : Nat) (span : Span) (params : List Name)
    (place : Nat) :
    (functionNodes body span params)[place]? =
      params[place]?.map fun param => ⟨.function param.text (body + place), span⟩ := by
  induction params generalizing body place with
  | nil => rfl
  | cons param outer ih =>
    cases place with
    | zero => rfl
    | succ place =>
      rw [functionNodes, List.getElem?_cons_succ, List.getElem?_cons_succ, ih, Nat.add_assoc,
        Nat.add_comm 1]

namespace Cell

variable {arena : Arena} {cell : Cell}

/-- Right behind the body of a function, and behind each of its layers but the last one,
stands the next layer. -/
theorem exists_layer {index opening arrow : Nat} {first : Name} {more : List Name}
    {body : Phrase} (stored : cell.StoredIn arena)
    (isFunction : cell.phrase = .function opening first more arrow body)
    (low : cell.base + body.preceding ≤ index) (high : index < cell.root) :
    ∃ param span, arena.get? (index + 1) = some ⟨.function param index, span⟩ ∧
      (span = cell.phrase.span ∨
        index + 1 = cell.root ∧ span = cell.outer.getD cell.phrase.span) := by
  obtain ⟨place, rfl⟩ := Nat.exists_eq_add_of_le low
  by_cases last : place = more.length
  · subst last
    have root := cell.phrase.root_of_holds stored
    rw [isFunction] at root
    have place : cell.base + body.preceding + more.length + 1 =
        cell.base + (Phrase.function opening first more arrow body).preceding := by
      simp only [Phrase.preceding]
      omega
    refine ⟨first.text, _, ?_, .inr ⟨?_, rfl⟩⟩
    · rw [isFunction]
      exact (congrArg arena.get? place).trans root
    · rw [Cell.root, isFunction]
      exact place
  · simp only [StoredIn, root, isFunction, Phrase.nodes, Phrase.preceding, Arena.holds_append,
      Phrase.nodes_length] at stored high
    have inside : place < more.reverse.length := by
      rw [List.length_reverse]
      omega
    refine ⟨more.reverse[place].text, _, ?_, .inl rfl⟩
    rw [isFunction]
    have found := stored.2.1 place
    rw [Arena.functionNodes_getElem?, List.getElem?_eq_getElem inside] at found
    exact (congrArg arena.get? (by omega)).trans (found _ rfl)

end Cell

namespace Phrase

variable {path : Path} {part : Phrase} {outer : Option Span}

theorem Path.mem_around {span : Span} (path : Path) (around : span ∈ path.around outer) :
    span ∈ outer ∨ ∃ opening closing, span = ⟨opening, closing + 1⟩ ∧
      Symbol.leftParen.at opening ∈ path.before ∧ Symbol.rightParen.at closing ∈ path.after := by
  induction path generalizing outer with
  | here => exact .inl around
  | into frame rest ih =>
    rcases ih around with inner | ⟨opening, closing, same, opens, closes⟩
    · cases frame with
      | grouped opening closing =>
        cases inner
        cases outer with
        | none =>
          exact .inr ⟨opening, closing, rfl, List.mem_append_left _ List.mem_cons_self,
            List.mem_append_right _ List.mem_cons_self⟩
        | some span => exact .inl rfl
      | _ => cases inner
    · exact .inr ⟨opening, closing, same, List.mem_append_right _ opens,
        List.mem_append_left _ closes⟩

private theorem Path.parens_before (inOrder : InOrder path.before) {span : Span}
    (around : span ∈ path.around outer) :
    ∀ token ∈ path.before, span.start ≤ token.start → token.lexeme = .symbol .leftParen := by
  induction path generalizing outer with
  | here => exact List.forall_mem_nil _
  | into frame rest ih =>
    refine List.forall_mem_append.mpr
      ⟨fun token member from_ => ?_, ih (inOrder.sublist (List.sublist_append_right ..)) around⟩
    rcases rest.mem_around around with inner | ⟨opening, closing, rfl, inside, -⟩
    · cases frame with
      | grouped opening closing =>
        rw [List.mem_singleton.mp member]
        rfl
      | _ => cases inner
    · obtain ⟨first, last, split⟩ := List.append_of_mem inside
      rw [before, split, ← List.append_assoc] at inOrder
      have ahead := inOrder.start_lt token (List.mem_append_left _ member)
      exact absurd (Nat.lt_of_lt_of_le ahead from_) (Nat.lt_irrefl _)

section Around

variable (inOrder : InOrder (path.fill part).tokens)
include inOrder

theorem Path.start_lt : ∀ token ∈ path.before, token.start < part.span.start := by
  intro token member
  have positive := inOrder.extended token (by
    rw [path.tokens_fill]
    exact List.mem_append_left _ member)
  exact Nat.lt_of_lt_of_le positive ((path.laid_out inOrder).1 token member)

private theorem Path.mem_before {token : Token} (member : token ∈ (path.fill part).tokens)
    (early : token.start < part.span.start) : token ∈ path.before := by
  obtain ⟨-, inside, behind⟩ := path.laid_out inOrder
  rw [path.tokens_fill, List.mem_append, List.mem_append] at member
  rcases member with ahead | here | after
  · exact ahead
  · exact absurd (inside token here).1 (Nat.not_le.mpr early)
  · have positive := span_start_lt_stop (inOrder.sublist (path.tokens_sublist part))
    have place := behind token after
    omega

theorem Path.around_covers :
    ((path.around none).getD part.span).start ≤ part.span.start ∧
      part.span.stop ≤ ((path.around none).getD part.span).stop := by
  cases around : path.around none with
  | none => exact ⟨Nat.le_refl _, Nat.le_refl _⟩
  | some span =>
    obtain ⟨opening, closing, rfl, opens, closes⟩ :=
      (path.mem_around around).resolve_left (Option.not_mem_none _)
    exact ⟨Nat.le_of_lt (path.start_lt inOrder _ opens),
      Nat.le_succ_of_le ((path.laid_out inOrder).2.2 _ closes)⟩

end Around

/-- Each layer of a function but the outermost one is the body of the next layer. -/
theorem Path.curried_of_layer {arena : Arena} {base index opening arrow : Nat} {first : Name}
    {more : List Name} {body : Phrase} (inOrder : InOrder (path.fill part).tokens)
    (stored : Cell.StoredIn arena ⟨base, path.around none, part⟩)
    (isFunction : part = .function opening first more arrow body)
    (low : base + body.preceding < index) (high : index < base + part.preceding) :
    arena.Curried (path.fill part).tokens index (index + 1) := by
  obtain ⟨before, rfl⟩ := Nat.exists_eq_add_one_of_ne_zero (Nat.ne_zero_of_lt low)
  obtain ⟨param, inner, here, innerSpan⟩ := Cell.exists_layer stored isFunction
    (Nat.le_of_lt_succ low) (Nat.lt_of_succ_lt high)
  obtain ⟨other, outer, next, outerSpan⟩ := Cell.exists_layer stored isFunction
    (Nat.le_of_lt low) high
  have start : inner.start ≤ part.span.start := by
    rcases innerSpan with rfl | ⟨-, rfl⟩
    · exact Nat.le_refl _
    · exact (path.around_covers inOrder).1
  refine ⟨param, other, before, inner, outer, here, next, fun token member low high => ?_⟩
  rcases outerSpan with rfl | ⟨-, rfl⟩
  · exact absurd (Nat.lt_of_le_of_lt low high) (Nat.not_lt.mpr start)
  · have ahead := path.mem_before inOrder member (Nat.lt_of_lt_of_le high start)
    cases around : path.around none with
    | none =>
      rw [around] at low
      exact absurd (Nat.lt_of_le_of_lt low high) (Nat.not_lt.mpr start)
    | some span =>
      have inFront : InOrder path.before := by
        rw [path.tokens_fill] at inOrder
        exact inOrder.sublist (List.sublist_append_left ..)
      rw [around] at low
      rw [path.parens_before inFront around token ahead low]
      exact nofun

/-! The parent of a phrase -/

end Phrase

private theorem Items.Frame.root_mem (frame : Items.Frame) (part : Phrase) (base : Nat) :
    base + (frame.offset + part.preceding) ∈ (frame.fill part).roots base := by
  induction frame generalizing base with
  | last | more =>
    rw [offset, Nat.zero_add]
    exact List.mem_cons_self
  | later item comma inner ih =>
    rw [offset, Nat.add_assoc, ← Nat.add_assoc]
    exact List.mem_cons_of_mem _ (ih _)

private theorem Bindings.Frame.value_mem (frame : Bindings.Frame) (part : Phrase) (base : Nat) :
    base + (frame.offset + part.preceding) ∈
      ((frame.fill part).bound base).map LetBinding.value := by
  induction frame generalizing base with
  | last | more =>
    rw [offset, Nat.zero_add]
    exact List.mem_cons_self
  | later name assign value comma inner ih =>
    rw [offset, Nat.add_assoc, ← Nat.add_assoc]
    exact List.mem_cons_of_mem _ (ih _)

namespace Phrase

/-- One of the nodes of the form around a part names the part's root; if it is a function,
its `fun` stands in front of the part. -/
theorem Frame.exists_parent (frame : Frame) (part : Phrase) (base : Nat) {outer : Option Span}
    (alone : ∀ outer, frame.around outer = none)
    (around : ∀ span ∈ outer, span.start ≤ (frame.fill part).span.start) :
    ∃ node ∈ (frame.fill part).own base outer,
      base + (frame.offset + part.preceding) ∈ node.form.children ∧
      ∀ param body, node.form = .function param body → ∃ opening,
        Symbol.kwFun.at opening ∈ frame.before ∧ node.span.start ≤ opening := by
  cases frame with
  | grouped => cases alone none
  | item opening items =>
    exact ⟨_, List.mem_singleton_self _, items.root_mem part base, by rintro _ _ ⟨⟩⟩
  | bound opening bindings =>
    exact ⟨_, List.mem_singleton_self _, List.mem_append_left _ (bindings.value_mem part base),
      by rintro _ _ ⟨⟩⟩
  | letBody opening bindings =>
    refine ⟨_, List.mem_singleton_self _, ?_, by rintro _ _ ⟨⟩⟩
    simp [fill, form, Form.children, offset, Nat.add_assoc]
  | functionBody opening first more arrow =>
    have keyword : Symbol.kwFun.at opening ∈ (Frame.functionBody opening first more arrow).before :=
      List.mem_cons_self
    simp only [fill, own, offset, Nat.zero_add]
    cases layers : more.reverse with
    | nil =>
      obtain rfl := List.reverse_eq_nil_iff.mp layers
      refine ⟨_, List.mem_append_right _ (List.mem_singleton_self _), List.mem_singleton_self _,
        fun _ _ _ => ⟨opening, keyword, ?_⟩⟩
      cases outer with
      | none => exact Nat.le_refl _
      | some span => exact around span rfl
    | cons param others =>
      exact ⟨_, List.mem_append_left _ List.mem_cons_self, List.mem_singleton_self _,
        fun _ _ _ => ⟨opening, keyword, Nat.le_refl _⟩⟩
  | _ =>
    refine ⟨_, List.mem_singleton_self _, ?_, by rintro _ _ ⟨⟩⟩
    simp [fill, form, Form.children, offset, Nat.add_assoc]

/-- The same for a part deep inside, which stands in no parentheses. -/
theorem Path.exists_parent {path : Path} (bare : path.EndsBare) (part : Phrase) (base : Nat)
    (outer : Option Span) (inOrder : InOrder (path.fill part).tokens)
    (around : ∀ span ∈ outer, span.start ≤ (path.fill part).span.start) :
    ∃ node ∈ (path.fill part).nodes base outer,
      base + (path.offset + part.preceding) ∈ node.form.children ∧
      ∀ param body, node.form = .function param body → ∃ opening,
        Symbol.kwFun.at opening ∈ path.before ∧ node.span.start ≤ opening := by
  induction bare generalizing base outer with
  | @last frame alone =>
    obtain ⟨node, member, child, keyword⟩ := frame.exists_parent part base alone around
    obtain ⟨earlier, later, -, -, nodes⟩ := frame.nodes_fill part base
    refine ⟨node, ?_, child, fun param body isFunction => ?_⟩
    · rw [fill, fill, nodes part outer rfl]
      simp [member]
    · obtain ⟨opening, ahead, start⟩ := keyword param body isFunction
      exact ⟨opening, List.mem_append_left _ ahead, start⟩
  | @into frame rest _ ih =>
    obtain ⟨earlier, later, -, -, nodes⟩ := frame.nodes_fill (rest.fill part) base
    have inside : ∀ span ∈ frame.around outer, span.start ≤ (rest.fill part).span.start := by
      have ahead : ∀ token ∈ (Path.into frame .here).before,
          token.start < (rest.fill part).span.start := Path.start_lt inOrder
      cases frame with
      | grouped opening closing =>
        have opens := Nat.le_of_lt (ahead _ List.mem_cons_self)
        rintro _ ⟨⟩
        cases outer with
        | none => exact opens
        | some span => exact Nat.le_trans (around span rfl) opens
      | _ => rintro _ ⟨⟩
    obtain ⟨node, member, child, keyword⟩ := ih (base + frame.offset) _
      (inOrder.sublist (frame.tokens_sublist _)) inside
    refine ⟨node, ?_, ?_, fun param body isFunction => ?_⟩
    · rw [fill, nodes _ outer rfl]
      simp [member]
    · rw [offset, Nat.add_assoc, ← Nat.add_assoc]
      exact child
    · obtain ⟨opening, ahead, start⟩ := keyword param body isFunction
      exact ⟨opening, List.mem_append_right _ ahead, start⟩

/-- The root of a phrase is never the body of a further layer. -/
theorem Path.not_curried {path : Path} {part : Phrase} {arena : Arena}
    (inOrder : InOrder (path.fill part).tokens)
    (holds : arena.Holds 0 ((path.fill part).nodes 0 none))
    (size : arena.size = (path.fill part).preceding + 1) (outer : Nat) :
    ¬ arena.Curried (path.fill part).tokens (path.offset + part.preceding) outer := by
  rintro ⟨param, other, body, first, second, here, parent, between⟩
  obtain ⟨bare, wider, filled, place, same, -, -, alone⟩ := path.exists_bare part
  rw [← filled] at inOrder holds size between
  rw [← place, ← same] at here parent
  have forest := (bare.fill wider).forest_of_holds 0 none holds
  rw [Nat.zero_add, ← size] at forest
  obtain ⟨inside, -⟩ := Array.getElem?_eq_some_iff.mp parent
  rcases alone with rfl | alone
  · obtain ⟨-, before⟩ := forest.child_lt (Nat.zero_le outer) inside parent List.mem_cons_self
    change outer < arena.size at inside
    simp only [fill, offset] at size before
    omega
  · obtain ⟨node, member, child, keyword⟩ := exists_parent alone wider 0 none inOrder
      (by rintro _ ⟨⟩)
    rw [Nat.zero_add] at child
    obtain ⟨index, found⟩ := List.getElem?_of_mem member
    have stored := holds index node found
    rw [Nat.zero_add] at stored
    obtain rfl := forest.parent_unique stored child parent List.mem_cons_self
    cases stored.symm.trans parent
    obtain ⟨opening, ahead, start⟩ := keyword _ _ rfl
    have root := wider.root_of_holds (holds_part holds)
    rw [Nat.zero_add, alone.around] at root
    have span : first = wider.span :=
      congrArg Node.span (Option.some.inj (here.symm.trans root))
    refine between (Symbol.kwFun.at opening) ?_ start ?_ rfl
    · rw [bare.tokens_fill]
      exact List.mem_append_left _ ahead
    · rw [span]
      exact bare.start_lt inOrder _ ahead

end Phrase

end ClamSyntax
