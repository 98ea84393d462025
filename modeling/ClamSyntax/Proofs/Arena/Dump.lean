import ClamSyntax.Arena.Tree
import ClamSyntax.Proofs.Json.Readability
import Mathlib

namespace ClamSyntax

namespace Json

@[simp] theorem natural_inj {first second : Nat} :
    natural first = natural second ↔ first = second := by
  simp [natural]

@[simp] theorem variant_inj {name other : String} {first second : Json} :
    variant name first = variant other second ↔ name = other ∧ first = second := by
  simp [variant]

@[simp] theorem ofSpan_inj {first second : Span} :
    ofSpan first = ofSpan second ↔ first = second := by
  cases first
  cases second
  simp [ofSpan]

@[simp] theorem ofBinding_inj {first second : LetBinding} :
    ofBinding first = ofBinding second ↔ first = second := by
  cases first
  cases second
  simp [ofBinding]

@[simp] theorem ofValue_inj {first second : Value} :
    ofValue first = ofValue second ↔ first = second := by
  cases first <;> cases second <;> simp [ofValue, variant, Int32.toInt_inj]

@[simp] theorem map_natural_inj {first second : List Nat} :
    first.map natural = second.map natural ↔ first = second :=
  (List.map_injective_iff.mpr fun _ _ => natural_inj.mp).eq_iff

@[simp] theorem map_ofBinding_inj {first second : List LetBinding} :
    first.map ofBinding = second.map ofBinding ↔ first = second :=
  (List.map_injective_iff.mpr fun _ _ => ofBinding_inj.mp).eq_iff

end Json

private theorem BinaryOp.name_inj {first second : BinaryOp} :
    first.name = second.name ↔ first = second := by
  have apart : ∀ first ∈ all, ∀ second ∈ all, first.name = second.name → first = second := by decide
  exact ⟨apart first first.mem_all second second.mem_all, congrArg name⟩

private theorem UnaryOp.name_inj {first second : UnaryOp} :
    first.name = second.name ↔ first = second := by
  have apart : ∀ first ∈ all, ∀ second ∈ all, first.name = second.name → first = second := by decide
  exact ⟨apart first first.mem_all second second.mem_all, congrArg name⟩

namespace Json

@[simp] theorem ofForm_inj {first second : Form} :
    ofForm first = ofForm second ↔ first = second := by
  cases first <;> cases second <;>
    simp [ofForm, BinaryOp.name_inj, UnaryOp.name_inj]

@[simp] theorem ofNode_inj {first second : Node} :
    ofNode first = ofNode second ↔ first = second := by
  cases first
  cases second
  simp [ofNode]

/-- The value determines store and root. -/
theorem ofArena_inj {arena other : Arena} {root otherRoot : Nat} :
    ofArena arena root = ofArena other otherRoot ↔ root = otherRoot ∧ arena = other := by
  have listed : arena.nodes.toList.map ofNode = other.nodes.toList.map ofNode ↔ arena = other := by
    rw [(List.map_injective_iff.mpr fun _ _ => ofNode_inj.mp).eq_iff, Array.toList_inj]
    exact (Arena.mk.injEq ..).symm.to_iff
  simp [ofArena, listed]

/-! Values without floats -/

theorem itemsFloatFree {items : List Json} (free : ∀ item ∈ items, item.FloatFree) :
    ItemsFloatFree items := by
  induction items with
  | nil => trivial
  | cons item items ih =>
    obtain ⟨here, behind⟩ := List.forall_mem_cons.mp free
    exact ⟨here, ih behind⟩

private theorem naturals_floatFree (numbers : List Nat) : ItemsFloatFree (numbers.map natural) :=
  itemsFloatFree (List.forall_mem_map.mpr fun _ _ => trivial)

theorem ofSpan_floatFree (span : Span) : (ofSpan span).FloatFree := ⟨trivial, trivial, trivial⟩

private theorem ofBinding_floatFree (binding : LetBinding) : (ofBinding binding).FloatFree :=
  ⟨ofSpan_floatFree binding.span, trivial, trivial, trivial⟩

private theorem ofForm_floatFree {form : Form} (free : ∀ number, form ≠ .literal (.float number)) :
    (ofForm form).FloatFree := by
  cases form with
  | literal value =>
    cases value with
    | float number => exact absurd rfl (free number)
    | unit => exact ⟨trivial, trivial⟩
    | bool | int | str => exact ⟨⟨trivial, trivial⟩, trivial⟩
  | name | print => exact ⟨trivial, trivial⟩
  | list items => exact ⟨naturals_floatFree items, trivial⟩
  | letIn bindings body =>
    exact ⟨⟨itemsFloatFree (List.forall_mem_map.mpr fun binding _ => ofBinding_floatFree binding),
      trivial, trivial⟩, trivial⟩
  | function | application | subscript => exact ⟨⟨trivial, trivial, trivial⟩, trivial⟩
  | conditional => exact ⟨⟨trivial, trivial, trivial, trivial⟩, trivial⟩
  | unary op place => exact ⟨⟨trivial, ofSpan_floatFree place, trivial, trivial⟩, trivial⟩
  | binary op place => exact ⟨⟨trivial, ofSpan_floatFree place, trivial, trivial, trivial⟩, trivial⟩

end Json

/-- No literal of the store is a float. -/
def Arena.FloatFree (arena : Arena) : Prop :=
  ∀ node ∈ arena.nodes, ∀ number, node.form ≠ .literal (.float number)

private theorem Json.ofArena_floatFree {arena : Arena} (free : arena.FloatFree) (root : Nat) :
    (ofArena arena root).FloatFree := by
  refine ⟨trivial, itemsFloatFree (List.forall_mem_map.mpr fun node member => ?_), trivial⟩
  exact ⟨ofForm_floatFree (free node (Array.mem_toList_iff.mp member)), ofSpan_floatFree node.span,
    trivial⟩

/-- Every store is dumped as JSON, whatever its nodes hold and wherever their children are. The
texts of two stores without float literals are equal exactly if the roots are the same and the
stores have the same nodes in the same order, with all their fields. -/
theorem dump_faithful {arena other : Arena} (floatFree : arena.FloatFree)
    (floatFreeOther : other.FloatFree) (root otherRoot : Nat) :
    ∃ text textOther, arena.format root .json = .ok text ∧
      other.format otherRoot .json = .ok textOther ∧
      (text = textOther ↔ root = otherRoot ∧ arena = other) :=
  ⟨_, _, rfl, rfl, (Json.indented_inj (Json.ofArena_floatFree floatFree root)
    (Json.ofArena_floatFree floatFreeOther otherRoot)).trans Json.ofArena_inj⟩

/-- A string that holds a quote, a backslash and a control character, and one in which these are
spelled as JSON escapes them. -/
theorem escapes_dumped :
    let arena (text : String) : Arena := ⟨#[⟨.literal (.str text), ⟨0, 5⟩⟩]⟩
    (arena "\"\\\x01").FloatFree ∧ (arena "\\\"\\\\\\u0001").FloatFree ∧
      ∃ text textOther, (arena "\"\\\x01").format 0 .json = .ok text ∧
        (arena "\\\"\\\\\\u0001").format 0 .json = .ok textOther ∧ text ≠ textOther := by
  intro arena
  have floatFree (text : String) : (arena text).FloatFree := by
    intro node member number same
    cases Array.mem_singleton.mp member
    cases same
  obtain ⟨text, textOther, written, writtenOther, same⟩ :=
    dump_faithful (floatFree "\"\\\x01") (floatFree "\\\"\\\\\\u0001") 0 0
  refine ⟨floatFree _, floatFree _, text, textOther, written, writtenOther, fun equal => ?_⟩
  have stores := (same.mp equal).2
  simp [arena] at stores

end ClamSyntax
