import ClamSyntax.Proofs.Arena.Edits
import ClamSyntax.Proofs.Session.Consumption

/-! Nodes survive later calls. A call edits the store, and where parentheses close it changes a
node in place; but the node is always one that the same call has appended. So whatever a call
reads and however it ends, the store before it begins the store behind it. -/

namespace ClamSyntax

namespace Session

/-- The edits that a call makes: those of the phrase it reads, or of the pieces of one that it
cannot read to the end. -/
def edits (session : Session) (call : Call) : List Arena.Edit :=
  match session.reading call with
  | .ok (phrase, _) => phrase.edits session.arena.size
  | .error failure => Piece.edits session.arena.size failure.pieces

/-- Parentheses that close change the node inside them. -/
example : (ofSource "(a)".toList).edits .program =
    [.push ⟨.name "a", ⟨1, 2⟩⟩, .widen 0 ⟨0, 3⟩] := by cbv

/-- The edits of a call lead to the store behind it. -/
theorem answer_arena {session : Session} (inOrder : InOrder session.rest) (call : Call) :
    (session.answer call).session.arena = session.arena.edited (session.edits call) := by
  have splits := session.reading_splits call
  rw [session.answer_eq, edits]
  generalize session.reading call = reading at splits
  match reading, splits with
  | .ok (phrase, rest), splits =>
    rw [splits] at inOrder
    have spelled := inOrder.sublist (List.sublist_append_left phrase.tokens rest)
    change (phrase.store session.arena none).arena = _
    rw [phrase.store_eq]
    exact (phrase.edited_edits rfl spelled).symm
  | .error failure, splits =>
    rw [splits] at inOrder
    exact (Piece.edited_edits failure.pieces rfl
      (inOrder.sublist (List.sublist_append_left failure.taken failure.rest))).symm

/-- They widen only nodes that the call itself has appended. -/
theorem edits_within (session : Session) (call : Call) :
    ∀ edit ∈ session.edits call,
      edit.Within session.arena.size (session.answer call).session.arena.size := by
  rw [session.answer_eq, edits]
  match session.reading call with
  | .ok (phrase, rest) =>
    change ∀ edit ∈ phrase.edits session.arena.size,
      edit.Within session.arena.size (phrase.store session.arena none).arena.size
    rw [phrase.store_eq, Arena.size_append, Phrase.nodes_length]
    exact phrase.edits_within (Nat.le_refl _) (Nat.le_refl _)
  | .error failure => exact Piece.edits_within failure.pieces rfl (Nat.le_refl _)

/-- The nodes before a call begin those behind it. -/
theorem answer_keeps_arena {session : Session} (inOrder : InOrder session.rest) (call : Call) :
    session.arena.nodes.toList <+: (session.answer call).session.arena.nodes.toList := by
  rw [answer_arena inOrder call]
  exact Arena.prefix_of_get? fun index inside =>
    Arena.get?_edited (Nat.le_refl _) (session.edits_within call) inside

/-- The nodes before any calls begin those behind them all. -/
theorem after_keeps_arena {session : Session} (inOrder : InOrder session.rest)
    (calls : List Call) :
    session.arena.nodes.toList <+: (session.after calls).arena.nodes.toList := by
  induction calls generalizing session with
  | nil => exact List.prefix_refl _
  | cons call calls ih =>
    have next := inOrder.sublist (session.answer_rest_suffix call).sublist
    exact (answer_keeps_arena inOrder call).trans (ih next)

end Session

/-- Among any calls on a source every one of them, whether it succeeds or fails, edits the store
behind the nodes that are there: it appends others, and where it widens a node for closing
parentheses, it has appended that node itself. So the store before the call begins the one behind
it, and that one the store behind all later calls: a node keeps its position, form and range. -/
theorem nodes_survive (source : List Char) (earlier : List Session.Call) (call : Session.Call)
    (later : List Session.Call) :
    let session := (Session.ofSource source).after earlier
    let behind := (session.answer call).session
    behind.arena = session.arena.edited (session.edits call) ∧
    (∀ edit ∈ session.edits call, edit.Within session.arena.size behind.arena.size) ∧
    session.arena.nodes.toList <+: behind.arena.nodes.toList ∧
    behind.arena.nodes.toList <+: (behind.after later).arena.nodes.toList := by
  intro session behind
  have inOrder : InOrder session.rest := Session.after_rest_inOrder source earlier
  have next : InOrder behind.rest := inOrder.sublist (session.answer_rest_suffix call).sublist
  exact ⟨Session.answer_arena inOrder call, session.edits_within call,
    Session.answer_keeps_arena inOrder call, Session.after_keeps_arena next later⟩

end ClamSyntax
