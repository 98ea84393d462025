import ClamSyntax.Proofs.Arena.Storage
import ClamSyntax.Proofs.Parser.Pieces
import ClamSyntax.Proofs.Phrase.Expression

/-! How many nodes a phrase has. Most forms have a token for each node of their own. An
application has none, so a phrase can have more nodes than tokens; but every application joins two
phrases into one, which keeps the nodes below twice the tokens. -/

namespace ClamSyntax

mutual

/-- The nodes of a phrase, of which there is one behind those that precede the root, are fewer
than twice its tokens. -/
theorem Phrase.preceding_le : ∀ phrase : Phrase,
    phrase.preceding + 2 ≤ 2 * phrase.tokens.length
  | .literal .. | .name _ => Nat.le_refl 2
  | .list _ items => by
    have inside := items.count_le
    simp only [Phrase.preceding, Phrase.tokens, List.length_cons]
    omega
  | .letIn _ bindings _ body => by
    have values := bindings.count_le
    have last := body.preceding_le
    simp only [Phrase.preceding, Phrase.tokens, List.length_cons, List.length_append]
    omega
  | .function _ _ more _ body => by
    -- every parameter has one node and one token
    have inside := body.preceding_le
    simp only [Phrase.preceding, Phrase.tokens, List.length_cons, List.length_append,
      List.length_map]
    omega
  | .print _ operand | .unary _ _ operand => by
    have inside := operand.preceding_le
    simp only [Phrase.preceding, Phrase.tokens, List.length_cons]
    omega
  | .conditional _ condition _ yes _ no => by
    have first := condition.preceding_le
    have second := yes.preceding_le
    have third := no.preceding_le
    simp only [Phrase.preceding, Phrase.tokens, List.length_cons, List.length_append]
    omega
  | .group _ body _ => by
    have inside := body.preceding_le
    simp only [Phrase.preceding, Phrase.tokens, List.length_cons, List.length_append]
    omega
  | .binary left _ _ right => by
    have first := left.preceding_le
    have second := right.preceding_le
    simp only [Phrase.preceding, Phrase.tokens, List.length_cons, List.length_append]
    omega
  | .application callee argument => by
    -- the form that uses up all that its parts leave
    have first := callee.preceding_le
    have second := argument.preceding_le
    simp only [Phrase.preceding, Phrase.tokens, List.length_append]
    omega
  | .subscript target _ index _ => by
    have first := target.preceding_le
    have second := index.preceding_le
    simp only [Phrase.preceding, Phrase.tokens, List.length_cons, List.length_append]
    omega

theorem Items.count_le : ∀ items : Items, items.count ≤ 2 * items.tokens.length
  | .close _ => Nat.zero_le _
  | .last item _ => by
    have first := item.preceding_le
    simp only [Items.count, Items.tokens, List.length_append]
    omega
  | .more item _ rest => by
    have first := item.preceding_le
    have others := rest.count_le
    simp only [Items.count, Items.tokens, List.length_cons, List.length_append]
    omega

theorem Bindings.count_le : ∀ bindings : Bindings,
    bindings.count ≤ 2 * bindings.tokens.length
  | .last _ _ value => by
    have first := value.preceding_le
    simp only [Bindings.count, Bindings.tokens, List.length_cons]
    omega
  | .more _ _ value _ rest => by
    have first := value.preceding_le
    have others := rest.count_le
    simp only [Bindings.count, Bindings.tokens, List.length_cons, List.length_append]
    omega

end

/-- Storing a phrase adds fewer nodes than twice its tokens. -/
theorem Phrase.size_store_lt (phrase : Phrase) (arena : Arena) :
    (phrase.store arena none).arena.size < arena.size + 2 * phrase.tokens.length := by
  have fewer := phrase.preceding_le
  rw [phrase.store_eq, Arena.size_append, Phrase.nodes_length]
  omega

/-- Storing the pieces of a failed reading adds no more nodes than twice their tokens. -/
theorem Piece.size_storeAll_le (pieces : List Piece) (arena : Arena) :
    (Piece.storeAll arena pieces).size ≤
      arena.size + 2 * (pieces.flatMap Piece.tokens).length := by
  induction pieces generalizing arena with
  | nil => exact Nat.le_refl _
  | cons piece pieces ih =>
    rw [List.flatMap_cons, List.length_append]
    cases piece with
    | opening token | inner token =>
      have others := ih arena
      change (Piece.storeAll arena pieces).size ≤ _
      omega
    | complete phrase =>
      have others := ih (phrase.store arena none).arena
      have fewer := phrase.size_store_lt arena
      change (Piece.storeAll (phrase.store arena none).arena pieces).size ≤ _
      rw [Piece.tokens]
      omega

/-! Phrases that reach the bound -/

/-- A phrase applied to names, one after the other. -/
def Phrase.applied (callee : Phrase) (arguments : List Name) : Phrase :=
  arguments.foldl (fun callee argument => .application callee (.name argument)) callee

namespace Phrase

theorem tokens_applied (callee : Phrase) (arguments : List Name) :
    (callee.applied arguments).tokens = callee.tokens ++ arguments.map Name.token := by
  induction arguments generalizing callee with
  | nil => exact (List.append_nil _).symm
  | cons argument arguments ih =>
    rw [applied, List.foldl_cons, ← applied, ih, tokens, List.append_assoc]
    rfl

/-- Every argument has two nodes: its own and that of the application. -/
theorem preceding_applied (callee : Phrase) (arguments : List Name) :
    (callee.applied arguments).preceding = callee.preceding + 2 * arguments.length := by
  induction arguments generalizing callee with
  | nil => rfl
  | cons argument arguments ih =>
    rw [applied, List.foldl_cons, ← applied, ih, preceding, List.length_cons]
    simp only [preceding]
    omega

theorem expr_applied (callee : Phrase) (arguments : List Name) :
    (callee.applied arguments).expr =
      (arguments.map Name.text).foldl (fun inner text => Expr.application inner (.name text))
        callee.expr := by
  induction arguments generalizing callee with
  | nil => rfl
  | cons argument arguments ih =>
    rw [applied, List.foldl_cons, ← applied, ih]
    rfl

/-- An application groups to the left, so it may be applied to further names as it stands. -/
theorem applied_grammatical {callee : Phrase} (grammatical : callee.Grammatical)
    (yields : ∀ part ∈ callee.rightSpine, part.Yields Power.application.left)
    (arguments : List Name) : (callee.applied arguments).Grammatical := by
  induction arguments generalizing callee with
  | nil => exact grammatical
  | cons argument arguments ih =>
    refine ih ⟨grammatical, trivial, yields, ?_, id⟩ ?_
    · exact List.forall_mem_singleton.mpr trivial
    · exact List.forall_mem_cons.mpr ⟨trivial, List.forall_mem_singleton.mpr trivial⟩

end Phrase

end ClamSyntax
