import ClamSyntax.Proofs.Arena.Cells
import ClamSyntax.Proofs.Phrase.Extent
import ClamSyntax.Proofs.Session.Parse
import ClamSyntax.Proofs.Token.Tiling

/-! Binding powers in the store. The ranges of the nodes show which of them were written
in parentheses, and every operand that was not respects the power of its place, down the
whole of its first or last children. -/

namespace ClamSyntax

namespace Form

/-- The child with which the form begins. -/
def first? : Form → Option Nat
  | .binary _ _ left _ => some left
  | .application callee _ => some callee
  | .subscript target _ => some target
  | _ => none

/-- The child with which the form ends. -/
def last? : Form → Option Nat
  | .binary _ _ _ right => some right
  | .application _ argument => some argument
  | .unary _ _ operand => some operand
  | .letIn _ body => some body
  | .function _ body => some body
  | .print operand => some operand
  | .conditional _ _ no => some no
  | _ => none

/-- The form takes all that follows it. -/
def IsOpenEnded : Form → Prop
  | .unary .not .. | .letIn .. | .function .. | .print _ | .conditional .. => True
  | _ => False

def IsBinary : Form → Prop
  | .binary .. => True
  | _ => False

def IsApplication : Form → Prop
  | .application .. => True
  | _ => False

def IsNegation : Form → Prop
  | .unary .negate .. => True
  | _ => False

/-- The form ends with a token of its own. -/
def IsClosed : Form → Prop
  | .literal _ | .name _ | .list _ | .subscript .. => True
  | _ => False

/-- An operator in the place of the form binds at least as tightly as the power. -/
def Admits (power : Nat) (form : Form) : Prop :=
  ∀ op place left right, form = .binary op place left right → power ≤ op.power.left

/-- The form leaves what follows to an operator of this left power. -/
def Yields (power : Nat) (form : Form) : Prop :=
  ¬ form.IsOpenEnded ∧
    ∀ op place left right, form = .binary op place left right → power < op.power.right

end Form

namespace Arena

variable (arena : Arena) (source : List Char)

/-- The node was written in parentheses: its range starts before its first token. -/
def Parenthesised (node : Node) : Prop :=
  match node.form with
  | .binary _ _ child _ | .application child _ | .subscript child _ =>
    ∃ first, arena.get? child = some first ∧ node.span.start < first.span.start
  | .unary _ place _ => node.span.start < place.start
  | _ => Text.slice? source ⟨node.span.start, node.span.start + 1⟩ = some ['(']

/-- Going down from a position through nodes without parentheses, by one child of each,
one meets a node of this form. -/
inductive Meets (next : Form → Option Nat) : Nat → Form → Prop
  | here {index : Nat} {node : Node} : arena.get? index = some node →
      ¬ arena.Parenthesised source node → Meets next index node.form
  | down {index child : Nat} {node : Node} {form : Form} : arena.get? index = some node →
      ¬ arena.Parenthesised source node → next node.form = some child →
      Meets next child form → Meets next index form

/-- The operands of the form respect the powers of their places. -/
def Respects : Form → Prop
  | .binary op _ left right =>
    (∀ form, arena.Meets source Form.first? right form → form.Admits op.power.right) ∧
      ∀ form, arena.Meets source Form.last? left form → form.Yields op.power.left
  | .application callee argument =>
    (∀ node, arena.get? argument = some node → ¬ arena.Parenthesised source node →
      ¬ node.form.IsBinary ∧ ¬ node.form.IsApplication ∧ ¬ node.form.IsNegation) ∧
      ∀ form, arena.Meets source Form.last? callee form →
        ¬ form.IsOpenEnded ∧ ¬ form.IsBinary
  | .unary .negate _ operand =>
    ∀ node, arena.get? operand = some node → ¬ arena.Parenthesised source node →
      ¬ node.form.IsBinary ∧ ¬ node.form.IsApplication
  | .subscript target _ =>
    ∀ node, arena.get? target = some node → ¬ arena.Parenthesised source node →
      node.form.IsClosed
  | _ => True

end Arena

/-! What the tokens of a cell say about its range -/

namespace Cell

variable {arena : Arena} {source : List Char} {cell : Cell}

/-- The tokens of the cell stand in the source from left to right. -/
structure LaidOut (source : List Char) (cell : Cell) : Prop where
  stand : ∀ token ∈ cell.tokens, Lexer.StandsIn 0 source token
  ordered : cell.tokens.Pairwise fun earlier later => earlier.stop ≤ later.start

theorem LaidOut.sublist {other : Cell} (laidOut : cell.LaidOut source)
    (part : other.tokens.Sublist cell.tokens) : other.LaidOut source where
  stand token member := laidOut.stand token (part.subset member)
  ordered := laidOut.ordered.sublist part

theorem root_node (stored : cell.StoredIn arena) :
    arena.get? cell.root =
      some ⟨cell.phrase.form cell.base, cell.outer.getD cell.phrase.span⟩ :=
  Phrase.root_of_holds cell.phrase stored

private theorem LaidOut.start_lt {span : Span} (laidOut : cell.LaidOut source)
    (outer : cell.outer = some span) : span.start < cell.phrase.span.start := by
  obtain ⟨rest, begins⟩ := cell.phrase.exists_tokens_eq_cons
  have ordered := laidOut.ordered
  rw [tokens, outer] at ordered
  simp only [begins] at ordered
  rw [cell.phrase.span_start]
  exact List.rel_of_pairwise_cons ordered List.mem_cons_self

private theorem LaidOut.parenthesis {span : Span} (laidOut : cell.LaidOut source)
    (outer : cell.outer = some span) :
    Text.slice? source ⟨span.start, span.start + 1⟩ = some ['('] := by
  have stand := laidOut.stand (Symbol.leftParen.at span.start)
  rw [tokens, outer] at stand
  obtain ⟨before, after, rfl, place⟩ := stand List.mem_cons_self
  rw [show span.start = Text.size before from place.trans (Nat.zero_add _)]
  exact Text.slice?_append before ['('] after

/-- The cell is stored, and its tokens are laid out. -/
structure Stands (arena : Arena) (source : List Char) (cell : Cell) : Prop where
  stored : cell.StoredIn arena
  laidOut : cell.LaidOut source

theorem Stands.child {child : Cell} (stands : cell.Stands arena source)
    (member : child ∈ cell.children) : child.Stands arena source :=
  ⟨storedIn_children stands.stored _ member, stands.laidOut.sublist (tokens_children _ _ member)⟩

private theorem parenthesised_of_outer {span : Span} : ∀ (phrase : Phrase) (base : Nat),
    Stands arena source ⟨base, some span, phrase⟩ →
      arena.Parenthesised source ⟨phrase.form base, span⟩
  | .group _ body _, base, stands =>
    parenthesised_of_outer body base (stands.child (List.mem_singleton_self _))
  | .binary .., _, stands | .application .., _, stands | .subscript .., _, stands =>
    ⟨_, root_node (stands.child List.mem_cons_self).stored, stands.laidOut.start_lt rfl⟩
  | .unary .., _, stands => stands.laidOut.start_lt rfl
  | .literal .., _, stands | .name _, _, stands | .list .., _, stands | .letIn .., _, stands
  | .function .., _, stands | .print .., _, stands | .conditional .., _, stands =>
    stands.laidOut.parenthesis rfl

/-- A node without parentheses is that of a phrase without parentheses. -/
theorem Stands.form_of_bare (stands : cell.Stands arena source) {node : Node}
    (found : arena.get? cell.root = some node) (bare : ¬ arena.Parenthesised source node) :
    node.form = cell.phrase.form cell.base ∧ ¬ cell.phrase.IsGroup := by
  obtain ⟨base, outer, phrase⟩ := cell
  rw [root_node stands.stored] at found
  cases found
  refine ⟨rfl, fun isGroup => ?_⟩
  cases outer with
  | some span => exact bare (parenthesised_of_outer _ base stands)
  | none =>
    cases phrase with
    | group _ body _ =>
      exact bare (parenthesised_of_outer body base (stands.child (List.mem_singleton_self _)))
    | _ => exact isGroup

end Cell

namespace Phrase

variable {base power : Nat} {phrase : Phrase}

private theorem form_admits (admits : phrase.Admits power) (noGroup : ¬ phrase.IsGroup) :
    (phrase.form base).Admits power := by
  intro op place left right same
  cases phrase with
  | binary => cases same; exact admits
  | group => exact absurd trivial noGroup
  | _ => cases same

private theorem form_yields (yields : phrase.Yields power) (noGroup : ¬ phrase.IsGroup) :
    (phrase.form base).Yields power := by
  cases phrase with
  | group => exact absurd trivial noGroup
  | binary => exact ⟨id, fun _ _ _ _ same => by cases same; exact yields⟩
  | unary op =>
    cases op with
    | not => cases yields
    | negate => exact ⟨id, nofun⟩
  | letIn | function | print | conditional => cases yields
  | _ => exact ⟨id, nofun⟩

private theorem form_of_admits (admits : phrase.Admits power)
    (high : Power.application.left < power)
    (noGroup : ¬ phrase.IsGroup) :
    ¬ (phrase.form base).IsBinary ∧ ¬ (phrase.form base).IsApplication := by
  cases phrase with
  | binary left op place right =>
    have bound : power ≤ op.power.left := admits
    have small := op.power_lt_application.1
    omega
  | application => exact absurd (Nat.lt_of_lt_of_le high admits) (Nat.lt_irrefl _)
  | group => exact absurd trivial noGroup
  | _ => exact ⟨id, id⟩

private theorem form_isNegation (negation : (phrase.form base).IsNegation)
    (noGroup : ¬ phrase.IsGroup) :
    phrase.IsNegation := by
  cases phrase with
  | group => exact absurd trivial noGroup
  | unary op =>
    cases op with
    | not => cases negation
    | negate => trivial
  | _ => cases negation

private theorem form_isClosed (closed : phrase.Closed) (noGroup : ¬ phrase.IsGroup) :
    (phrase.form base).IsClosed := by
  cases phrase with
  | group => exact absurd trivial noGroup
  | literal | name | list | subscript => trivial
  | _ => cases closed

end Phrase

namespace Cell

variable {arena : Arena} {source : List Char}

/-- Down the first children of a cell one meets the phrases of its left spine. -/
theorem admits_of_meets {index power : Nat} {form : Form}
    (meets : arena.Meets source Form.first? index form) (cell : Cell)
    (stands : cell.Stands arena source) (atRoot : cell.root = index)
    (admits : ∀ part ∈ cell.phrase.leftSpine, part.Admits power) : form.Admits power := by
  induction meets generalizing cell with
  | here found bare =>
    subst atRoot
    obtain ⟨same, noGroup⟩ := stands.form_of_bare found bare
    rw [same]
    exact Phrase.form_admits (admits _ cell.phrase.mem_leftSpine) noGroup
  | down found bare next _ ih =>
    subst atRoot
    obtain ⟨same, noGroup⟩ := stands.form_of_bare found bare
    rw [same] at next
    obtain ⟨base, outer, phrase⟩ := cell
    cases phrase with
    | binary | application | subscript =>
      cases next
      exact ih _ (stands.child List.mem_cons_self) rfl (List.forall_mem_cons.mp admits).2
    | group => exact absurd trivial noGroup
    | _ => cases next

/-- Down the last children of a cell one meets the phrases of its right spine, as long as
no function is among them. -/
theorem yields_of_meets {index power : Nat} {form : Form}
    (meets : arena.Meets source Form.last? index form) (cell : Cell)
    (stands : cell.Stands arena source) (atRoot : cell.root = index)
    (yields : ∀ part ∈ cell.phrase.rightSpine, part.Yields power) : form.Yields power := by
  induction meets generalizing cell with
  | here found bare =>
    subst atRoot
    obtain ⟨same, noGroup⟩ := stands.form_of_bare found bare
    rw [same]
    exact Phrase.form_yields (yields _ cell.phrase.mem_rightSpine) noGroup
  | down found bare next _ ih =>
    subst atRoot
    obtain ⟨same, noGroup⟩ := stands.form_of_bare found bare
    rw [same] at next
    obtain ⟨base, outer, phrase⟩ := cell
    cases phrase with
    | binary | application =>
      cases next
      exact ih _ (stands.child (List.mem_cons_of_mem _ List.mem_cons_self)) rfl
        (List.forall_mem_cons.mp yields).2
    | unary =>
      cases next
      exact ih _ (stands.child List.mem_cons_self) rfl (List.forall_mem_cons.mp yields).2
    | letIn | function | print | conditional => cases (List.forall_mem_cons.mp yields).1
    | group => exact absurd trivial noGroup
    | _ => cases next

/-- The form of a grammatical phrase respects the binding powers. -/
theorem respects (cell : Cell) (stands : cell.Stands arena source)
    (grammatical : cell.phrase.Grammatical) (noGroup : ¬ cell.phrase.IsGroup) :
    arena.Respects source (cell.phrase.form cell.base) := by
  obtain ⟨base, outer, phrase⟩ := cell
  cases phrase with
  | binary left op place right =>
    obtain ⟨-, -, yields, admits⟩ := grammatical
    refine ⟨fun form meets => ?_, fun form meets => ?_⟩
    · have right := stands.child (List.mem_cons_of_mem _ List.mem_cons_self)
      exact admits_of_meets meets _ right rfl admits
    · exact yields_of_meets meets _ (stands.child List.mem_cons_self) rfl yields
  | application callee argument =>
    obtain ⟨-, -, yields, admits, noNegation⟩ := grammatical
    refine ⟨fun node found bare => ?_, fun form meets => ?_⟩
    · have last := stands.child (List.mem_cons_of_mem _ List.mem_cons_self)
      obtain ⟨same, noGroup⟩ := last.form_of_bare found bare
      rw [same]
      obtain ⟨noBinary, noApplication⟩ := Phrase.form_of_admits
        (admits _ argument.mem_leftSpine) (Nat.lt_succ_self Power.application.left) noGroup
      exact ⟨noBinary, noApplication, fun negation =>
        noNegation (Phrase.form_isNegation negation noGroup)⟩
    · have ends := yields_of_meets meets _ (stands.child List.mem_cons_self) rfl yields
      refine ⟨ends.1, fun isBinary => ?_⟩
      cases form with
      | binary op =>
        exact absurd (ends.2 _ _ _ _ rfl) (Nat.lt_asymm op.power_lt_application.2)
      | _ => exact isBinary
  | unary op opening operand =>
    cases op with
    | not => trivial
    | negate =>
      intro node found bare
      obtain ⟨same, noGroup⟩ := (stands.child List.mem_cons_self).form_of_bare found bare
      rw [same]
      exact Phrase.form_of_admits (grammatical.2 _ operand.mem_leftSpine) (by decide) noGroup
  | subscript target opening index closing =>
    intro node found bare
    obtain ⟨same, noGroup⟩ := (stands.child List.mem_cons_self).form_of_bare found bare
    rw [same]
    exact Phrase.form_isClosed grammatical.2.2 noGroup
  | group => exact absurd trivial noGroup
  | _ => trivial

end Cell

/-- Every node of an accepted source respects the binding powers. -/
theorem accepted_respects_powers {source : List Char} {arena : Arena} {root : Nat}
    (accepted : parse source = .ok (arena, root)) {index : Nat} {node : Node}
    (found : arena.get? index = some node) : arena.Respects source node.form := by
  obtain ⟨phrase, spelled, grammatical, same⟩ := parse_eq_ok_iff.mp accepted
  cases same
  let whole : Cell := ⟨0, none, phrase⟩
  have laidOut : whole.LaidOut source := by
    refine ⟨?_, ?_⟩
    · change ∀ token ∈ phrase.tokens, _
      rw [spelled]
      exact Lexer.tokensFrom_stand 0 source
    · change phrase.tokens.Pairwise _
      rw [spelled]
      exact Lexer.tokensFrom_ordered 0 source
  have covers : whole.Covers index := by
    refine ⟨Nat.zero_le index, ?_⟩
    obtain ⟨inside, -⟩ := Array.getElem?_eq_some_iff.mp found
    change index < phrase.stored.size at inside
    rw [phrase.stored_size] at inside
    change index ≤ 0 + phrase.preceding
    omega
  obtain ⟨part, within, ⟨rfl, noGroup⟩ | inner⟩ := Cell.exists_within index whole covers
  · have stands : part.Stands phrase.stored source :=
      ⟨within.storedIn phrase.stored_holds, laidOut.sublist within.tokens_sublist⟩
    rw [Cell.root_node stands.stored] at found
    cases found
    exact part.respects stands (within.grammatical grammatical) noGroup
  · obtain ⟨_, _, _, _, _, isFunction, low, high⟩ := inner
    obtain ⟨other, same, _, _, form⟩ :=
      Cell.inner_function (within.storedIn phrase.stored_holds) isFunction low high
    cases found.symm.trans same
    rw [form]
    trivial

/-- In `(a+b)*c` the parentheses keep the sum together. -/
theorem product_of_sum_respects :
    let arena : Arena := ⟨#[⟨.name "a", ⟨1, 2⟩⟩, ⟨.name "b", ⟨3, 4⟩⟩,
      ⟨.binary .add ⟨2, 3⟩ 0 1, ⟨0, 5⟩⟩, ⟨.name "c", ⟨6, 7⟩⟩,
      ⟨.binary .mul ⟨5, 6⟩ 2 3, ⟨0, 7⟩⟩]⟩
    arena.Respects "(a+b)*c".toList (.binary .mul ⟨5, 6⟩ 2 3) := by
  intro arena
  have accepted : parse "(a+b)*c".toList = .ok (arena, 4) := by cbv
  have found : arena.get? 4 = some ⟨.binary .mul ⟨5, 6⟩ 2 3, ⟨0, 7⟩⟩ := rfl
  exact accepted_respects_powers accepted found

end ClamSyntax
