import ClamSyntax.Expr
import ClamSyntax.Proofs.Phrase.Relocation

namespace ClamSyntax

/-- One function for every parameter, the first one outside. -/
def Expr.functions (params : List Name) (body : Expr) : Expr :=
  params.foldr (fun param inner => .function param.text inner) body

mutual

def Phrase.expr : Phrase → Expr
  | .literal _ value => .literal value
  | .name name => .name name.text
  | .list _ items => .list items.exprs
  | .letIn _ bindings _ body => .letIn bindings.exprs body.expr
  | .function _ first more _ body => .function first.text (Expr.functions more body.expr)
  | .print _ operand => .print operand.expr
  | .conditional _ condition _ yes _ no => .conditional condition.expr yes.expr no.expr
  | .unary op _ operand => .unary op operand.expr
  | .group _ body _ => body.expr
  | .binary left op _ right => .binary op left.expr right.expr
  | .application callee argument => .application callee.expr argument.expr
  | .subscript target _ index _ => .subscript target.expr index.expr

def Items.exprs : Items → List Expr
  | .close _ => []
  | .last item _ => [item.expr]
  | .more item _ rest => item.expr :: rest.exprs

def Bindings.exprs : Bindings → List (String × Expr)
  | .last name _ value => [(name.text, value.expr)]
  | .more name _ value _ rest => (name.text, value.expr) :: rest.exprs

end

theorem Expr.functions_relocate (move : Nat → Nat) (params : List Name) (body : Expr) :
    Expr.functions (params.map (Name.relocate move)) body = Expr.functions params body := by
  rw [Expr.functions, List.foldr_map]
  rfl

mutual

private theorem Phrase.expr_relocate (move : Nat → Nat) : ∀ phrase : Phrase,
    (phrase.relocate move).expr = phrase.expr
  | .literal .. | .name _ => rfl
  | .list _ items => congrArg Expr.list (items.exprs_relocate move)
  | .letIn _ bindings _ body => by
    simp only [Phrase.relocate, Phrase.expr, bindings.exprs_relocate, body.expr_relocate]
  | .function _ first more _ body => by
    simp only [Phrase.relocate, Phrase.expr, body.expr_relocate, Expr.functions_relocate]
    rfl
  | .print _ operand => congrArg Expr.print (operand.expr_relocate move)
  | .conditional _ condition _ yes _ no => by
    simp only [Phrase.relocate, Phrase.expr, condition.expr_relocate, yes.expr_relocate,
      no.expr_relocate]
  | .unary op _ operand => congrArg (Expr.unary op) (operand.expr_relocate move)
  | .group _ body _ => body.expr_relocate move
  | .binary left op _ right => by
    simp only [Phrase.relocate, Phrase.expr, left.expr_relocate, right.expr_relocate]
  | .application callee argument => by
    simp only [Phrase.relocate, Phrase.expr, callee.expr_relocate, argument.expr_relocate]
  | .subscript target _ index _ => by
    simp only [Phrase.relocate, Phrase.expr, target.expr_relocate, index.expr_relocate]

theorem Items.exprs_relocate (move : Nat → Nat) : ∀ items : Items,
    (items.relocate move).exprs = items.exprs
  | .close _ => rfl
  | .last item _ => congrArg ([·]) (item.expr_relocate move)
  | .more item _ rest => by
    simp only [Items.relocate, Items.exprs, item.expr_relocate, rest.exprs_relocate]

theorem Bindings.exprs_relocate (move : Nat → Nat) : ∀ bindings : Bindings,
    (bindings.relocate move).exprs = bindings.exprs
  | .last name _ value => by
    simp only [Bindings.relocate, Bindings.exprs, value.expr_relocate]
    rfl
  | .more name _ value _ rest => by
    simp only [Bindings.relocate, Bindings.exprs, value.expr_relocate, rest.exprs_relocate]
    rfl

end

/-- Phrases that differ in their offsets only denote one expression. -/
theorem Phrase.Alike.expr_eq {first second : Phrase} (alike : first.Alike second) :
    first.expr = second.expr := by
  rw [← first.expr_relocate fun _ => 0, alike, second.expr_relocate]

end ClamSyntax
