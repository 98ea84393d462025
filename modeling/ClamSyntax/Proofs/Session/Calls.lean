import ClamSyntax.Proofs.Arena.PostOrder
import ClamSyntax.Session

namespace ClamSyntax

/-- What a session can be asked to read. -/
inductive Session.Call where
  | term
  | expression (least : Nat)
  | program

namespace Session

def answer (session : Session) : Call → Answer
  | .term => session.term
  | .expression least => session.expression least
  | .program => session.program

/-- The session after the calls, whatever their answers. -/
def after (session : Session) (calls : List Call) : Session :=
  calls.foldl (fun session call => (session.answer call).session) session

theorem answer_cases (session : Session) (call : Call) :
    (∃ phrase rest, session.answer call = session.accept phrase rest) ∨
      ∃ failure, session.answer call = session.refuse failure := by
  cases call with
  | term =>
    rw [answer, term]
    split
    · exact .inl ⟨_, _, rfl⟩
    · exact .inr ⟨_, rfl⟩
  | expression least =>
    rw [answer, expression]
    split
    · exact .inl ⟨_, _, rfl⟩
    · exact .inr ⟨_, rfl⟩
  | program =>
    rw [answer, program]
    split
    · exact .inl ⟨_, _, rfl⟩
    · exact .inr ⟨_, rfl⟩

private theorem answer_size (session : Session) (call : Call) :
    (session.answer call).session.size = session.size := by
  rcases session.answer_cases call with ⟨phrase, rest, stored⟩ | ⟨failure, refused⟩
  · rw [stored]
    rfl
  · rw [refused]
    rfl

theorem after_size (session : Session) (calls : List Call) :
    (session.after calls).size = session.size := by
  induction calls generalizing session with
  | nil => rfl
  | cons call calls ih => exact (ih _).trans (session.answer_size call)

end Session

namespace Arena

/-- The store grew by the trees of the roots, behind what was there. -/
structure Grows (before after : Arena) (roots : List Nat) : Prop where
  earlier : ∀ index < before.size, after.get? index = before.get? index
  trees : after.Forest before.size after.size roots

private theorem get?_append_of_lt (arena : Arena) (nodes : List Node) {index : Nat}
    (inside : index < arena.size) : (arena.append nodes).get? index = arena.get? index := by
  rw [get?, append]
  exact Array.getElem?_append_left inside

theorem Grows.refl (arena : Arena) : arena.Grows arena [] :=
  ⟨fun _ _ => rfl, .empty _⟩

theorem Grows.trans {before between after : Arena} {first second : List Nat}
    (start : before.Grows between first) (finish : between.Grows after second) :
    before.Grows after (first ++ second) where
  earlier index inside := by
    have bound := start.trees.base_le
    exact (finish.earlier index (by omega)).trans (start.earlier index inside)
  trees := (start.trees.extend finish.earlier).append finish.trees

theorem grows_store (arena : Arena) (phrase : Phrase) :
    arena.Grows (phrase.store arena none).arena [(phrase.store arena none).root] := by
  rw [phrase.store_eq]
  refine ⟨fun index inside => get?_append_of_lt _ _ inside, ?_⟩
  have whole := phrase.forest_of_holds arena.size none (append_holds arena _)
  rw [size_append, Phrase.nodes_length, ← Nat.add_assoc]
  exact whole

private theorem grows_storeAll (pieces : List Piece) (arena : Arena) :
    ∃ roots, arena.Grows (Piece.storeAll arena pieces) roots := by
  induction pieces generalizing arena with
  | nil => exact ⟨[], .refl arena⟩
  | cons piece pieces ih =>
    cases piece with
    | opening token => exact ih arena
    | inner token => exact ih arena
    | complete phrase =>
      obtain ⟨roots, others⟩ := ih (phrase.store arena none).arena
      exact ⟨_, (arena.grows_store phrase).trans others⟩

end Arena

namespace Session

/-- One call adds the tree of its root, or the trees that it had finished. -/
theorem answer_grows (session : Session) (call : Call) :
    match (session.answer call).result with
    | .ok root => session.arena.Grows (session.answer call).session.arena [root]
    | .error _ => ∃ roots, session.arena.Grows (session.answer call).session.arena roots := by
  rcases session.answer_cases call with ⟨phrase, rest, same⟩ | ⟨failure, same⟩
  · rw [same]
    exact session.arena.grows_store phrase
  · rw [same]
    exact Arena.grows_storeAll failure.pieces session.arena

theorem exists_answer_grows (session : Session) (call : Call) :
    ∃ roots, session.arena.Grows (session.answer call).session.arena roots := by
  have grows := session.answer_grows call
  split at grows
  · exact ⟨_, grows⟩
  · exact grows

/-- All calls together add trees. -/
theorem after_grows (session : Session) (calls : List Call) :
    ∃ roots, session.arena.Grows (session.after calls).arena roots := by
  induction calls generalizing session with
  | nil => exact ⟨[], .refl _⟩
  | cons call calls ih =>
    obtain ⟨first, start⟩ := session.exists_answer_grows call
    obtain ⟨second, finish⟩ := ih (session.answer call).session
    exact ⟨first ++ second, start.trans finish⟩

end Session

/-- After any calls on a source, one more call leaves the store as it was and adds trees in
post-order behind it: where it succeeds the one tree of the root that it returns, where it
fails any number of trees. In the store so far every node stands right behind the trees of
its children, which lie in front of it, and no node has two parents. -/
theorem answer_in_post_order (source : List Char) (calls : List Session.Call)
    (call : Session.Call) :
    let session := (Session.ofSource source).after calls
    let answer := session.answer call
    let before := session.arena
    let after := answer.session.arena
    (∀ index < before.size, after.get? index = before.get? index) ∧
    (match answer.result with
      | .ok root =>
        before.size ≤ root ∧ after.size = root + 1 ∧ after.Forest before.size after.size [root] ∧
          (root :: after.namedBetween before.size after.size).Perm
            (List.range' before.size (after.size - before.size))
      | .error _ => ∃ roots, after.Forest before.size after.size roots) ∧
    (∀ index node, after.get? index = some node →
      (∃ first, after.Forest first index node.form.children) ∧
        ∀ child ∈ node.form.children, child < index) ∧
    after.named.Nodup := by
  intro session answer before after
  obtain ⟨roots, grows⟩ := session.exists_answer_grows call
  obtain ⟨earlierRoots, earlier⟩ := (Session.ofSource source).after_grows calls
  have whole : after.Forest 0 after.size (earlierRoots ++ roots) := (earlier.trans grows).trees
  refine ⟨grows.earlier, ?_, ?_, whole.named_nodup⟩
  · have result := session.answer_grows call
    change match answer.result with
      | .ok root => before.Grows after [root]
      | .error _ => ∃ roots, before.Grows after roots at result
    split at result
    · rename_i root _
      exact ⟨(result.trees.root_mem root List.mem_cons_self).1, result.trees.stop_eq,
        result.trees, result.trees.named_perm⟩
    · obtain ⟨added, trees⟩ := result
      exact ⟨added, trees.trees⟩
  · intro index node found
    have inside : index < after.size := (Array.getElem?_eq_some_iff.mp found).1
    obtain ⟨first, -, tree⟩ := whole.tree_at (Nat.zero_le index) inside
    exact ⟨⟨first, tree.children_of_tree found⟩,
      fun child member => (whole.child_lt (Nat.zero_le _) inside found member).2⟩

end ClamSyntax
