import ClamSyntax.Arena.Tree
import ClamSyntax.Proofs.Arena.Storage
import ClamSyntax.Proofs.Phrase.Expression

namespace ClamSyntax

namespace Arena

/-- The nodes stand in the store one after the other from a position on. -/
def Holds (arena : Arena) (base : Nat) (nodes : List Node) : Prop :=
  ∀ index node, nodes[index]? = some node → arena.get? (base + index) = some node

variable {arena : Arena} {base : Nat}

theorem holds_nil : arena.Holds base [] := nofun

theorem holds_cons {node : Node} {nodes : List Node} :
    arena.Holds base (node :: nodes) ↔
      arena.get? base = some node ∧ arena.Holds (base + 1) nodes := by
  constructor
  · intro holds
    refine ⟨holds 0 node rfl, fun index other found => ?_⟩
    rw [Nat.add_assoc, Nat.add_comm 1]
    exact holds (index + 1) other found
  · rintro ⟨first, rest⟩ index other found
    cases index with
    | zero =>
      cases found
      exact first
    | succ index =>
      rw [← Nat.add_assoc, Nat.add_right_comm]
      exact rest index other found

theorem holds_append {first second : List Node} :
    arena.Holds base (first ++ second) ↔
      arena.Holds base first ∧ arena.Holds (base + first.length) second := by
  induction first generalizing base with
  | nil => simp [holds_nil]
  | cons node first ih =>
    simp only [List.cons_append, holds_cons, ih, and_assoc, List.length_cons, Nat.add_assoc,
      Nat.add_comm 1]

theorem holds_singleton {node : Node} :
    arena.Holds base [node] ↔ arena.get? base = some node := by
  simp [holds_cons, holds_nil]

theorem append_holds (arena : Arena) (nodes : List Node) :
    (arena.append nodes).Holds arena.size nodes := by
  intro index node found
  rw [get?, append, size, Array.getElem?_append_right (Nat.le_add_right ..),
    Nat.add_sub_cancel_left, List.getElem?_toArray]
  exact found

end Arena

variable {arena : Arena}

theorem Phrase.root_of_holds : ∀ (phrase : Phrase) {base : Nat} {outer : Option Span},
    arena.Holds base (phrase.nodes base outer) →
      arena.get? (base + phrase.preceding) = some ⟨phrase.form base, outer.getD phrase.span⟩
  | .group _ body _, base, outer, holds => body.root_of_holds holds
  | .literal .., _, _, holds | .name _, _, _, holds => Arena.holds_singleton.mp holds
  | .list _ _, _, _, holds | .letIn .., _, _, holds | .function .., _, _, holds
  | .print .., _, _, holds | .conditional .., _, _, holds | .unary .., _, _, holds
  | .binary .., _, _, holds | .application .., _, _, holds | .subscript .., _, _, holds => by
    simp only [Phrase.nodes, Arena.holds_append, Arena.holds_singleton, Phrase.nodes_length,
      Items.nodes_length, Bindings.nodes_length, Arena.functionNodes_length,
      List.length_reverse, Nat.add_assoc] at holds
    simp only [Phrase.preceding, Nat.add_assoc, holds]

def Form.expr? (child : Nat → Except Arena.Broken Expr) : Form → Except Arena.Broken Expr
  | .literal value => return .literal value
  | .name text => return .name text
  | .list items => return .list (← items.mapM child)
  | .letIn bindings body => do
    let bound ← bindings.mapM fun binding => do return (binding.name, ← child binding.value)
    return .letIn bound (← child body)
  | .function param body => return .function param (← child body)
  | .application callee argument => return .application (← child callee) (← child argument)
  | .print operand => return .print (← child operand)
  | .conditional condition yes no =>
    return .conditional (← child condition) (← child yes) (← child no)
  | .unary op _ operand => return .unary op (← child operand)
  | .binary op _ left right => return .binary op (← child left) (← child right)
  | .subscript target index => return .subscript (← child target) (← child index)

theorem Arena.exprBelow_succ {index : Nat} {form : Form} {span : Span}
    (found : arena.get? index = some ⟨form, span⟩) (height : Nat) :
    arena.exprBelow (height + 1) index = form.expr? (arena.exprBelow height) := by
  rw [exprBelow.eq_def, found]
  cases form <;> rfl

/-- Reading below the last of the inner functions goes through all of them. -/
theorem Arena.exprBelow_functions {span : Span} (params : List Name) (index : Nat) {expr : Expr}
    (holds : arena.Holds (index + 1) (functionNodes index span params))
    (body : ∀ height, index < height → arena.exprBelow height index = .ok expr) :
    ∀ height, index + params.length < height →
      arena.exprBelow height (index + params.length) =
        .ok (Expr.functions params.reverse expr) := by
  induction params generalizing index expr with
  | nil => exact body
  | cons param outer ih =>
    obtain ⟨here, rest⟩ := holds_cons.mp holds
    have inner (height : Nat) (enough : index + 1 < height) :
        arena.exprBelow height (index + 1) = .ok (.function param.text expr) := by
      obtain ⟨lower, rfl⟩ := Nat.exists_eq_add_of_lt enough
      rw [exprBelow_succ here, Form.expr?, body _ (by omega)]
      rfl
    intro height enough
    have found := ih (index + 1) rest inner height (by simp at enough; omega)
    rw [List.length_cons, Nat.add_comm outer.length, ← Nat.add_assoc, found,
      List.reverse_cons, Expr.functions, Expr.functions, List.foldr_append]
    rfl

mutual

/-- From the root of a phrase its expression is read back. -/
theorem Phrase.exprBelow_of_holds : ∀ (phrase : Phrase) (base : Nat) (outer : Option Span),
    arena.Holds base (phrase.nodes base outer) →
      ∀ height, base + phrase.preceding < height →
        arena.exprBelow height (base + phrase.preceding) = .ok phrase.expr
  | _, _, _, _, 0, enough => absurd enough (Nat.not_lt_zero _)
  | .group _ body _, base, _, holds, height, enough =>
    body.exprBelow_of_holds base _ holds height enough
  | .literal .., _, _, holds, _ + 1, _ | .name _, _, _, holds, _ + 1, _ =>
    Arena.exprBelow_succ (Phrase.root_of_holds _ holds) _
  | .list _ items, base, _, holds, height + 1, enough => by
    rw [Arena.exprBelow_succ (Phrase.root_of_holds _ holds)]
    simp only [Phrase.nodes, Arena.holds_append] at holds
    have inner := items.mapM_of_holds base holds.1 height (Nat.le_of_lt_succ enough)
    simp only [Phrase.form, Form.expr?, inner]
    rfl
  | .letIn _ bindings _ body, base, _, holds, height + 1, enough => by
    rw [Arena.exprBelow_succ (Phrase.root_of_holds _ holds)]
    simp only [Phrase.nodes, Arena.holds_append, Bindings.nodes_length] at holds
    simp only [Phrase.preceding] at enough
    have bound := bindings.mapM_of_holds base holds.1 height (by omega)
    have inner := body.exprBelow_of_holds _ none holds.2.1 height (by omega)
    simp only [Phrase.form, Form.expr?, bound, inner]
    rfl
  | .function _ first more _ body, base, _, holds, height + 1, enough => by
    rw [Arena.exprBelow_succ (Phrase.root_of_holds _ holds)]
    simp only [Phrase.nodes, Arena.holds_append, Phrase.nodes_length] at holds
    simp only [Phrase.preceding] at enough
    have inner := Arena.exprBelow_functions more.reverse (base + body.preceding) holds.2.1
      (body.exprBelow_of_holds base none holds.1) height
    rw [List.length_reverse, List.reverse_reverse] at inner
    simp only [Phrase.form, Form.expr?, inner (by omega)]
    rfl
  | .print _ operand, base, _, holds, height + 1, enough => by
    rw [Arena.exprBelow_succ (Phrase.root_of_holds _ holds)]
    simp only [Phrase.nodes, Arena.holds_append] at holds
    have inner :=
      operand.exprBelow_of_holds base none holds.1 height (Nat.lt_of_succ_lt_succ enough)
    simp only [Phrase.form, Form.expr?, inner]
    rfl
  | .conditional _ condition _ yes _ no, base, _, holds, height + 1, enough => by
    rw [Arena.exprBelow_succ (Phrase.root_of_holds _ holds)]
    simp only [Phrase.nodes, Arena.holds_append, Phrase.nodes_length, Nat.add_assoc] at holds
    simp only [Phrase.preceding] at enough
    have first := condition.exprBelow_of_holds base none holds.1 height (by omega)
    have second := yes.exprBelow_of_holds _ none holds.2.1 height (by omega)
    have third := no.exprBelow_of_holds _ none holds.2.2.1 height (by omega)
    simp only [Nat.add_assoc] at second third
    simp only [Phrase.form, Form.expr?, Nat.add_assoc, first, second, third]
    rfl
  | .unary op _ operand, base, _, holds, height + 1, enough => by
    rw [Arena.exprBelow_succ (Phrase.root_of_holds _ holds)]
    simp only [Phrase.nodes, Arena.holds_append] at holds
    have inner :=
      operand.exprBelow_of_holds base none holds.1 height (Nat.lt_of_succ_lt_succ enough)
    simp only [Phrase.form, Form.expr?, inner]
    rfl
  | .binary left op place right, base, _, holds, height + 1, enough => by
    rw [Arena.exprBelow_succ (Phrase.root_of_holds _ holds)]
    simp only [Phrase.nodes, Arena.holds_append, Phrase.nodes_length] at holds
    simp only [Phrase.preceding] at enough
    have first := left.exprBelow_of_holds base none holds.1 height (by omega)
    have second := right.exprBelow_of_holds _ none holds.2.1 height (by omega)
    simp only [Phrase.form, Form.expr?, first, second]
    rfl
  | .application callee argument, base, _, holds, height + 1, enough => by
    rw [Arena.exprBelow_succ (Phrase.root_of_holds _ holds)]
    simp only [Phrase.nodes, Arena.holds_append, Phrase.nodes_length] at holds
    simp only [Phrase.preceding] at enough
    have first := callee.exprBelow_of_holds base none holds.1 height (by omega)
    have second := argument.exprBelow_of_holds _ none holds.2.1 height (by omega)
    simp only [Phrase.form, Form.expr?, first, second]
    rfl
  | .subscript target _ index _, base, _, holds, height + 1, enough => by
    rw [Arena.exprBelow_succ (Phrase.root_of_holds _ holds)]
    simp only [Phrase.nodes, Arena.holds_append, Phrase.nodes_length] at holds
    simp only [Phrase.preceding] at enough
    have first := target.exprBelow_of_holds base none holds.1 height (by omega)
    have second := index.exprBelow_of_holds _ none holds.2.1 height (by omega)
    simp only [Phrase.form, Form.expr?, first, second]
    rfl

theorem Items.mapM_of_holds : ∀ (items : Items) (base : Nat),
    arena.Holds base (items.nodes base) → ∀ height, base + items.count ≤ height →
      (items.roots base).mapM (arena.exprBelow height) = .ok items.exprs
  | .close _, _, _, _, _ => rfl
  | .last item _, base, holds, height, enough => by
    have inner := item.exprBelow_of_holds base none holds height enough
    simp only [Items.roots, List.mapM_cons, inner]
    rfl
  | .more item _ rest, base, holds, height, enough => by
    simp only [Items.nodes, Arena.holds_append, Phrase.nodes_length] at holds
    simp only [Items.count] at enough
    have inner := item.exprBelow_of_holds base none holds.1 height (by omega)
    have others := rest.mapM_of_holds _ holds.2 height (by omega)
    simp only [Items.roots, List.mapM_cons, inner, others]
    rfl

theorem Bindings.mapM_of_holds : ∀ (bindings : Bindings) (base : Nat),
    arena.Holds base (bindings.nodes base) → ∀ height, base + bindings.count ≤ height →
      (bindings.bound base).mapM (fun binding => do
          return (binding.name, ← arena.exprBelow height binding.value)) =
        .ok bindings.exprs
  | .last _ _ value, base, holds, height, enough => by
    have inner := value.exprBelow_of_holds base none holds height enough
    simp only [Bindings.bound, List.mapM_cons, inner]
    rfl
  | .more _ _ value _ rest, base, holds, height, enough => by
    simp only [Bindings.nodes, Arena.holds_append, Phrase.nodes_length] at holds
    simp only [Bindings.count] at enough
    have inner := value.exprBelow_of_holds base none holds.1 height (by omega)
    have others := rest.mapM_of_holds _ holds.2 height (by omega)
    simp only [Bindings.bound, List.mapM_cons, inner, others]
    rfl

end

end ClamSyntax
