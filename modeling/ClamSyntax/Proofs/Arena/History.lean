import ClamSyntax.Arena.Tree
import ClamSyntax.Proofs.Arena.Edits
import ClamSyntax.Proofs.Arena.PostOrder
import Mathlib

/-! The law of a store's history. After any pushes and widenings a position holds the node that was
pushed there, with the range that just covers its own and all those by which it was widened. What
can be read down from a position is read the same for ever. -/

namespace ClamSyntax

/-- The range reaches from the least start of these ranges to the greatest stop. -/
structure Span.IsHull (spans : List Span) (hull : Span) : Prop where
  start : (spans.map Span.start).min? = some hull.start
  stop : (spans.map Span.stop).max? = some hull.stop

namespace Span

private theorem foldl_cover (first : Span) (spans : List Span) :
    (spans.foldl cover first).start = (spans.map start).foldl min first.start ∧
      (spans.foldl cover first).stop = (spans.map stop).foldl max first.stop := by
  induction spans generalizing first with
  | nil => exact ⟨rfl, rfl⟩
  | cons span spans ih => exact ih (first.cover span)

theorem isHull_foldl_cover (first : Span) (spans : List Span) :
    (spans.foldl cover first).IsHull (first :: spans) where
  start := by rw [(foldl_cover first spans).1, List.map_cons, List.min?_cons']
  stop := by rw [(foldl_cover first spans).2, List.map_cons, List.max?_cons']

variable {spans others : List Span} {hull other span : Span}

theorem IsHull.covers (covers : hull.IsHull spans) (listed : span ∈ spans) :
    hull.start ≤ span.start ∧ span.stop ≤ hull.stop := by
  obtain ⟨-, least⟩ := List.min?_eq_some_iff.mp covers.start
  obtain ⟨-, greatest⟩ := List.max?_eq_some_iff.mp covers.stop
  exact ⟨least _ (List.mem_map_of_mem listed), greatest _ (List.mem_map_of_mem listed)⟩

private theorem IsHull.within (covers : hull.IsHull spans) (coversOther : other.IsHull others)
    (subset : spans ⊆ others) : other.start ≤ hull.start ∧ hull.stop ≤ other.stop := by
  obtain ⟨first, -⟩ := List.min?_eq_some_iff.mp covers.start
  obtain ⟨last, -⟩ := List.max?_eq_some_iff.mp covers.stop
  obtain ⟨span, listed, start⟩ := List.mem_map.mp first
  obtain ⟨ending, listedEnd, stop⟩ := List.mem_map.mp last
  rw [← start, ← stop]
  exact ⟨(coversOther.covers (subset listed)).1, (coversOther.covers (subset listedEnd)).2⟩

/-- Order and repetition of the ranges do not matter. -/
theorem IsHull.unique (covers : hull.IsHull spans) (coversOther : other.IsHull others)
    (same : ∀ span, span ∈ spans ↔ span ∈ others) : hull = other := by
  obtain ⟨low, high⟩ := covers.within coversOther fun span => (same span).mp
  obtain ⟨lowOther, highOther⟩ := coversOther.within covers fun span => (same span).mpr
  exact congrArg₂ Span.mk (Nat.le_antisymm lowOther low) (Nat.le_antisymm high highOther)

end Span

namespace Arena

open Relation (ReflTransGen)

/-! What a history says of a position -/

/-- The nodes that are pushed, in order. -/
def pushed (edits : List Edit) : List Node :=
  edits.filterMap fun
    | .push node => some node
    | .widen .. => none

/-- The ranges by which the node at a position is widened, in order. -/
def widenings (index : Nat) (edits : List Edit) : List Span :=
  edits.filterMap fun
    | .push _ => none
    | .widen place span => if place = index then some span else none

/-- In a store of this size every node that is widened is there by then. -/
def InRange (size : Nat) : List Edit → Prop
  | [] => True
  | .push _ :: edits => InRange (size + 1) edits
  | .widen index _ :: edits => index < size ∧ InRange size edits

variable {arena : Arena} {edits : List Edit}

theorem size_edited (arena : Arena) (edits : List Edit) :
    (arena.edited edits).size = arena.size + (pushed edits).length := by
  induction edits generalizing arena with
  | nil => rfl
  | cons edit edits ih =>
    refine (ih (arena.edit edit)).trans ?_
    cases edit with
    | push node =>
      rw [Arena.edit, size_push, Nat.add_assoc, Nat.add_comm 1]
      rfl
    | widen index span =>
      rw [Arena.edit, size_widen]
      rfl

private theorem widenings_eq_nil {size index : Nat} (inRange : InRange size edits)
    (absent : size + (pushed edits).length ≤ index) : widenings index edits = [] := by
  induction edits generalizing size with
  | nil => rfl
  | cons edit edits ih =>
    cases edit with
    | push node =>
      have later : size + 1 + (pushed edits).length ≤ index := by
        simpa [pushed, Nat.add_assoc, Nat.add_comm 1] using absent
      exact ih inRange later
    | widen place span =>
      have apart : place ≠ index := by
        have low := inRange.1
        omega
      have step : widenings index (.widen place span :: edits) = widenings index edits := by
        simp [widenings, apart]
      exact step.trans (ih inRange.2 absent)

private theorem inRange_append {size : Nat} {earlier later : List Edit} :
    InRange size (earlier ++ later) ↔
      InRange size earlier ∧ InRange (size + (pushed earlier).length) later := by
  induction earlier generalizing size with
  | nil => simp [InRange, pushed]
  | cons edit earlier ih =>
    cases edit with
    | push node => simp [InRange, ih, pushed, Nat.add_assoc, Nat.add_comm 1]
    | widen index span => simp [InRange, ih, pushed, and_assoc]

private theorem exists_push {index : Nat} {node : Node}
    (listed : (pushed edits)[index]? = some node) :
    ∃ earlier later, edits = earlier ++ .push node :: later ∧ (pushed earlier).length = index := by
  induction edits generalizing index with
  | nil => cases listed
  | cons edit edits ih =>
    cases edit with
    | push first =>
      cases index with
      | zero =>
        cases listed
        exact ⟨[], edits, rfl, rfl⟩
      | succ index =>
        obtain ⟨earlier, later, rfl, count⟩ := ih listed
        exact ⟨.push first :: earlier, later, rfl, congrArg Nat.succ count⟩
    | widen place span =>
      obtain ⟨earlier, later, rfl, count⟩ := ih listed
      exact ⟨.widen place span :: earlier, later, rfl, count⟩

/-! The node at a position -/

/-- An edit keeps the form of a node that is there, and covers with its range that of a widening. -/
theorem get?_edit_of_get? {index : Nat} {node : Node} (found : arena.get? index = some node)
    (edit : Edit) :
    (arena.edit edit).get? index =
      some ⟨node.form, (widenings index [edit]).foldl Span.cover node.span⟩ := by
  cases edit with
  | push other =>
    have inside : index ≠ arena.size := by
      rintro rfl
      rw [get?, size, Array.getElem?_eq_none (Nat.le_refl _)] at found
      cases found
    rw [Arena.edit, get?_push, if_neg inside]
    exact found
  | widen place span =>
    rw [get?] at found
    rw [Arena.edit, widen, get?, Array.getElem?_modify, found]
    by_cases same : place = index
    · simp [widenings, same]
    · simp [widenings, same]

private theorem widenings_cons (index : Nat) (edit : Edit) (edits : List Edit) :
    widenings index (edit :: edits) = widenings index [edit] ++ widenings index edits :=
  List.filterMap_append (l := [edit])

/-- So do edits one after the other. -/
theorem get?_edited_of_get? {index : Nat} {node : Node} (found : arena.get? index = some node)
    (edits : List Edit) :
    (arena.edited edits).get? index =
      some ⟨node.form, (widenings index edits).foldl Span.cover node.span⟩ := by
  induction edits generalizing arena node with
  | nil => exact found
  | cons edit edits ih =>
    rw [widenings_cons, List.foldl_append]
    exact ih (get?_edit_of_get? found edit)

/-- The node that was pushed as the one of that number, after the whole history. -/
theorem get?_history (inRange : InRange 0 edits) {index : Nat} {node : Node}
    (listed : (pushed edits)[index]? = some node) :
    (empty.edited edits).get? index =
      some ⟨node.form, (widenings index edits).foldl Span.cover node.span⟩ := by
  obtain ⟨earlier, later, rfl, rfl⟩ := exists_push listed
  have size : (empty.edited earlier).size = (pushed earlier).length :=
    (size_edited empty earlier).trans (Nat.zero_add _)
  have early : widenings (pushed earlier).length earlier = [] :=
    widenings_eq_nil (inRange_append.mp inRange).1 (by rw [Nat.zero_add])
  have found : ((empty.edited earlier).push node).get? (pushed earlier).length = some node := by
    rw [get?_push, size, if_pos rfl]
  have whole : widenings (pushed earlier).length (earlier ++ .push node :: later) =
      widenings (pushed earlier).length later := by
    rw [widenings, List.filterMap_append, ← widenings, early]
    rfl
  rw [whole, edited_append]
  exact get?_edited_of_get? found later

/-- The node of that number has the form that was pushed, and the hull of its range and those by
which it was widened. -/
theorem exists_history (inRange : InRange 0 edits) {index : Nat} {node : Node}
    (listed : (pushed edits)[index]? = some node) :
    ∃ hull : Span, (empty.edited edits).get? index = some ⟨node.form, hull⟩ ∧
      hull.IsHull (node.span :: widenings index edits) :=
  ⟨_, get?_history inRange listed, Span.isHull_foldl_cover node.span (widenings index edits)⟩

theorem size_history (edits : List Edit) : (empty.edited edits).size = (pushed edits).length :=
  (size_edited empty edits).trans (Nat.zero_add _)

/-- Histories that push the same nodes and widen each by the same ranges, in any order and however
often, lead to one store. -/
theorem edited_eq_of_same {other : List Edit} (inRange : InRange 0 edits)
    (inRangeOther : InRange 0 other) (nodes : pushed other = pushed edits)
    (spans : ∀ index span, span ∈ widenings index other ↔ span ∈ widenings index edits) :
    empty.edited other = empty.edited edits := by
  have found (index : Nat) : (empty.edited other).get? index = (empty.edited edits).get? index := by
    cases listed : (pushed edits)[index]? with
    | none =>
      have absent := List.getElem?_eq_none_iff.mp listed
      have none {store : Arena} (small : store.size ≤ index) : store.get? index = none :=
        Array.getElem?_eq_none small
      rw [none (by rw [size_history, nodes]; exact absent),
        none (by rw [size_history]; exact absent)]
    | some node =>
      obtain ⟨hull, found, covers⟩ := exists_history inRange listed
      have listedOther : (pushed other)[index]? = some node := nodes ▸ listed
      obtain ⟨hullOther, foundOther, coversOther⟩ := exists_history inRangeOther listedOther
      rw [found, foundOther, coversOther.unique covers fun span => by simp [spans index span]]
  have same : (empty.edited other).nodes = (empty.edited edits).nodes := Array.ext_getElem? found
  exact congrArg Arena.mk same

/-! Reading down -/

/-- The position is named by the node at the other one. -/
def Child (arena : Arena) (parent child : Nat) : Prop :=
  ∃ node, arena.get? parent = some node ∧ child ∈ node.form.children

/-- All positions that are reached from the root exist, and every child stands before its
parent. -/
def Descends (arena : Arena) (root : Nat) : Prop :=
  ∀ index, ReflTransGen arena.Child root index →
    ∃ node, arena.get? index = some node ∧ ∀ child ∈ node.form.children, child < index

private theorem Descends.child {root child : Nat} (descends : arena.Descends root)
    (named : arena.Child root child) : arena.Descends child :=
  fun index reached => descends index (.head named reached)

private theorem Descends.intro {root : Nat} {node : Node} (found : arena.get? root = some node)
    (low : ∀ child ∈ node.form.children, child < root)
    (below : ∀ child ∈ node.form.children, arena.Descends child) : arena.Descends root := by
  intro index reached
  rcases ReflTransGen.cases_head reached with rfl | ⟨child, ⟨parent, foundParent, named⟩, behind⟩
  · exact ⟨node, found, low⟩
  · cases found.symm.trans foundParent
    exact below child named index behind

/-- The nodes of the first store are in the other one, perhaps with other ranges. -/
def Keeps (arena later : Arena) : Prop :=
  ∀ index node, arena.get? index = some node →
    ∃ span, later.get? index = some ⟨node.form, span⟩

private theorem edited_keeps (arena : Arena) (edits : List Edit) :
    arena.Keeps (arena.edited edits) :=
  fun _ _ found => ⟨_, get?_edited_of_get? found edits⟩

end Arena

section Children

variable {child other : Nat → Except Arena.Broken Expr}

private theorem mapM_congr {α β : Type} {f g : α → Except Arena.Broken β} {items : List α}
    (same : ∀ item ∈ items, f item = g item) : items.mapM f = items.mapM g := by
  induction items with
  | nil => rfl
  | cons item items ih =>
    obtain ⟨here, behind⟩ := List.forall_mem_cons.mp same
    rw [List.mapM_cons, List.mapM_cons, here, ih behind]

private theorem exists_mapM {α β : Type} {f : α → Except Arena.Broken β} {items : List α}
    (all : ∀ item ∈ items, ∃ result, f item = .ok result) :
    ∃ results, items.mapM f = .ok results := by
  induction items with
  | nil => exact ⟨[], rfl⟩
  | cons item items ih =>
    obtain ⟨⟨result, here⟩, behind⟩ := List.forall_mem_cons.mp all
    obtain ⟨results, others⟩ := ih behind
    exact ⟨result :: results, by rw [List.mapM_cons, here, others]; rfl⟩

private theorem Form.expr?_congr {form : Form}
    (same : ∀ index ∈ form.children, child index = other index) :
    form.expr? child = form.expr? other := by
  cases form with
  | list items =>
    have values : items.mapM child = items.mapM other := mapM_congr same
    simp only [Form.expr?, values]
  | letIn bindings body =>
    obtain ⟨bound, last⟩ := List.forall_mem_append.mp same
    have values : bindings.mapM (fun binding => do return (binding.name, ← child binding.value)) =
        bindings.mapM (fun binding => do return (binding.name, ← other binding.value)) :=
      mapM_congr fun binding listed => by
        rw [bound binding.value (List.mem_map_of_mem listed)]
    simp only [Form.expr?, values, last body (List.mem_singleton_self _)]
  | _ => simp_all [Form.expr?, Form.children]

private theorem Form.exists_expr? {form : Form}
    (all : ∀ index ∈ form.children, ∃ expr, child index = .ok expr) :
    ∃ expr, form.expr? child = .ok expr := by
  cases form with
  | list items =>
    obtain ⟨exprs, found⟩ : ∃ exprs, items.mapM child = .ok exprs := exists_mapM all
    exact ⟨.list exprs, by rw [Form.expr?, found]; rfl⟩
  | letIn bindings body =>
    obtain ⟨bound, last⟩ := List.forall_mem_append.mp all
    obtain ⟨expr, found⟩ := last body (List.mem_singleton_self _)
    have values : ∀ binding ∈ bindings, ∃ result,
        (do return (binding.name, ← child binding.value) : Except Arena.Broken _) = .ok result := by
      intro binding listed
      obtain ⟨value, found⟩ := bound binding.value (List.mem_map_of_mem listed)
      exact ⟨(binding.name, value), by rw [found]; rfl⟩
    obtain ⟨exprs, foundAll⟩ := exists_mapM values
    exact ⟨.letIn exprs expr, by simp only [Form.expr?, foundAll, found]; rfl⟩
  | literal value => exact ⟨.literal value, rfl⟩
  | name text => exact ⟨.name text, rfl⟩
  | function param body =>
    obtain ⟨expr, found⟩ := all body (List.mem_singleton_self _)
    exact ⟨.function param expr, by rw [Form.expr?, found]; rfl⟩
  | print operand =>
    obtain ⟨expr, found⟩ := all operand (List.mem_singleton_self _)
    exact ⟨.print expr, by rw [Form.expr?, found]; rfl⟩
  | unary op place operand =>
    obtain ⟨expr, found⟩ := all operand (List.mem_singleton_self _)
    exact ⟨.unary op expr, by rw [Form.expr?, found]; rfl⟩
  | application first second =>
    obtain ⟨⟨expr, found⟩, last⟩ := List.forall_mem_cons.mp all
    obtain ⟨other, foundOther⟩ := last second (List.mem_singleton_self _)
    exact ⟨.application expr other, by rw [Form.expr?, found, foundOther]; rfl⟩
  | binary op place first second =>
    obtain ⟨⟨expr, found⟩, last⟩ := List.forall_mem_cons.mp all
    obtain ⟨other, foundOther⟩ := last second (List.mem_singleton_self _)
    exact ⟨.binary op expr other, by rw [Form.expr?, found, foundOther]; rfl⟩
  | subscript first second =>
    obtain ⟨⟨expr, found⟩, last⟩ := List.forall_mem_cons.mp all
    obtain ⟨other, foundOther⟩ := last second (List.mem_singleton_self _)
    exact ⟨.subscript expr other, by rw [Form.expr?, found, foundOther]; rfl⟩
  | conditional first second third =>
    obtain ⟨⟨expr, found⟩, behind⟩ := List.forall_mem_cons.mp all
    obtain ⟨⟨yes, foundYes⟩, last⟩ := List.forall_mem_cons.mp behind
    obtain ⟨no, foundNo⟩ := last third (List.mem_singleton_self _)
    exact ⟨.conditional expr yes no, by rw [Form.expr?, found, foundYes, foundNo]; rfl⟩

end Children

namespace Arena

/-- From a root that descends one expression is read, now and in every store that keeps the nodes.
The height at which reading would give up plays no part. -/
theorem Descends.exists_expr {arena : Arena} {root : Nat} (descends : arena.Descends root) :
    ∃ expr, ∀ later, arena.Keeps later → ∀ height, root < height →
      later.exprBelow height root = .ok expr := by
  -- children stand in front of their parent, so the induction is on the position
  induction root using Nat.strong_induction_on with
  | _ root ih =>
    obtain ⟨⟨form, span⟩, found, low⟩ := descends root .refl
    have below (child : Nat) (named : child ∈ form.children) :
        ∃ expr, ∀ later, arena.Keeps later → ∀ height, child < height →
          later.exprBelow height child = .ok expr :=
      ih child (low child named) (descends.child ⟨_, found, named⟩)
    have kept : arena.Keeps arena := fun _ node found => ⟨node.span, found⟩
    have complete (child : Nat) (named : child ∈ form.children) :
        ∃ expr, arena.exprBelow root child = .ok expr :=
      (below child named).imp fun _ reads => reads arena kept root (low child named)
    obtain ⟨expr, reads⟩ := Form.exists_expr? complete
    refine ⟨expr, fun later keeps height enough => ?_⟩
    obtain ⟨height, rfl⟩ := Nat.exists_eq_add_of_lt enough
    obtain ⟨place, foundLater⟩ := keeps root _ found
    rw [exprBelow_succ foundLater, ← reads]
    refine Form.expr?_congr fun child named => ?_
    obtain ⟨expr, reads⟩ := below child named
    have lower := low child named
    rw [reads later keeps _ (by omega), reads arena kept root lower]

/-- The text of a root that descends is the same whatever edits follow. -/
theorem Descends.exists_sexpr {arena : Arena} {root : Nat} (descends : arena.Descends root) :
    ∃ text, ∀ later, (arena.edited later).sexpr root = .ok text := by
  obtain ⟨expr, reads⟩ := descends.exists_expr
  refine ⟨String.ofList expr.sexpr, fun later => ?_⟩
  obtain ⟨node, found, -⟩ := descends root .refl
  have inside : root < (arena.edited later).size := by
    have there : root < arena.size := (Array.getElem?_eq_some_iff.mp found).1
    rw [size_edited]
    omega
  rw [sexpr, expr?, reads _ (arena.edited_keeps later) _ inside]
  rfl

end Arena

/-- A store with any history of pushes and of widenings of nodes that are there. Every push returns
the number of pushes before it, and from then on the position holds the form that was pushed, with
the range from the least start to the greatest stop of its own range and all those by which it was
widened. So neither order nor repetition of the widenings matters, and no range ever shrinks. From a
root below which every child exists and stands before its parent the tree is printed, with the same
text whatever edits follow. -/
theorem history_law {edits : List Arena.Edit} (inRange : Arena.InRange 0 edits) :
    let store := Arena.empty.edited edits
    (∀ earlier node later, edits = earlier ++ .push node :: later →
      ((Arena.empty.edited earlier).add node.form node.span).root =
        (Arena.pushed earlier).length) ∧
    store.size = (Arena.pushed edits).length ∧
    (∀ index node, (Arena.pushed edits)[index]? = some node →
      ∃ hull : Span, store.get? index = some ⟨node.form, hull⟩ ∧
        hull.IsHull (node.span :: Arena.widenings index edits)) ∧
    (∀ other, Arena.InRange 0 other → Arena.pushed other = Arena.pushed edits →
      (∀ index span, span ∈ Arena.widenings index other ↔ span ∈ Arena.widenings index edits) →
        Arena.empty.edited other = store) ∧
    (∀ later index node, store.get? index = some node →
      ∃ hull : Span, (store.edited later).get? index = some ⟨node.form, hull⟩ ∧
        hull.start ≤ node.span.start ∧ node.span.stop ≤ hull.stop) ∧
    ∀ root, store.Descends root → ∃ text, ∀ later, (store.edited later).sexpr root = .ok text := by
  intro store
  refine ⟨fun earlier node later _ => Arena.size_history earlier, Arena.size_history edits,
    fun index node listed => Arena.exists_history inRange listed,
    fun other inRangeOther nodes spans =>
      Arena.edited_eq_of_same inRange inRangeOther nodes spans,
    fun later index node found => ?_, fun root descends => descends.exists_sexpr⟩
  have hull := Span.isHull_foldl_cover node.span (Arena.widenings index later)
  exact ⟨_, Arena.get?_edited_of_get? found later, hull.covers List.mem_cons_self⟩

/-- A name is widened twice, the second time by a range inside the first one, and a node that
names a position past the end does not disturb the others. -/
theorem widened_name_history :
    let edits : List Arena.Edit := [.push ⟨.name "a", ⟨1, 2⟩⟩, .widen 0 ⟨0, 3⟩,
      .push ⟨.print 0, ⟨0, 9⟩⟩, .widen 0 ⟨1, 2⟩, .push ⟨.print 7, ⟨4, 5⟩⟩]
    let store := Arena.empty.edited edits
    Arena.InRange 0 edits ∧
    (∃ hull : Span, store.get? 0 = some ⟨.name "a", hull⟩ ∧
      hull.IsHull [⟨1, 2⟩, ⟨0, 3⟩, ⟨1, 2⟩]) ∧
    store.Descends 1 ∧ ∃ text, ∀ later, (store.edited later).sexpr 1 = .ok text := by
  intro edits store
  have inRange : Arena.InRange 0 edits := by simp [edits, Arena.InRange]
  obtain ⟨-, -, holds, -, -, prints⟩ := history_law inRange
  have name : store.get? 0 = some ⟨.name "a", ⟨0, 3⟩⟩ := rfl
  have print : store.get? 1 = some ⟨.print 0, ⟨0, 9⟩⟩ := rfl
  have leaf : store.Descends 0 := .intro name nofun nofun
  have descends : store.Descends 1 := by
    refine .intro print ?_ ?_
    · exact List.forall_mem_singleton.mpr Nat.zero_lt_one
    · exact List.forall_mem_singleton.mpr leaf
  exact ⟨inRange, holds 0 _ rfl, descends, prints 1 descends⟩

end ClamSyntax
