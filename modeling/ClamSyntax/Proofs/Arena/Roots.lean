import ClamSyntax.Proofs.Arena.Widening
import ClamSyntax.Proofs.Parser.Relocation

namespace ClamSyntax

theorem Arena.addFunctions_concat (body : Stored) (span : Span) (params : List Name)
    (param : Name) :
    addFunctions body span (params ++ [param]) =
      (addFunctions body span params).arena.add
        (.function param.text (addFunctions body span params).root) span := by
  induction params generalizing body with
  | nil => rfl
  | cons _ _ ih => exact ih _

private theorem Arena.widen_last (arena : Arena) (front : List Node) (last : Node) (span : Span) :
    (arena.append (front ++ [last])).widen (arena.size + front.length) span =
      arena.append (front ++ [{ last with span := last.span.cover span }]) := by
  have modified : ∀ nodes : List Node, (nodes ++ [last]).modify nodes.length
      (fun node => { node with span := node.span.cover span }) =
      nodes ++ [{ last with span := last.span.cover span }] := by
    intro nodes
    induction nodes with
    | nil => rfl
    | cons node nodes ih => exact congrArg (node :: ·) ih
  obtain ⟨⟨nodes⟩⟩ := arena
  have whole := modified (nodes ++ front)
  simp only [List.append_assoc, List.length_append] at whole
  simp only [widen, append, size, List.size_toArray, List.append_toArray, List.modify_toArray,
    whole]

namespace Phrase

/-- The node of a stored phrase has its range, whatever is stored behind it. -/
theorem get?_root (phrase : Phrase) (arena : Arena) (later : List Node) :
    ((phrase.store arena none).arena.append later).get? (phrase.store arena none).root =
      some ⟨phrase.form arena.size, phrase.span⟩ := by
  obtain ⟨front, length, nodes⟩ := phrase.nodes_eq_concat arena.size
  have holds := Arena.append_holds arena (front ++ [⟨phrase.form arena.size, phrase.span⟩] ++ later)
  rw [Arena.holds_append, Arena.holds_append, Arena.holds_singleton, length] at holds
  rw [phrase.store_eq, nodes none, Arena.append_append]
  exact holds.1.2

/-- Parentheses around a phrase widen its node in the store. -/
theorem widen_root {phrase : Phrase} {around : Span}
    (covers : phrase.span.cover around = around) (arena : Arena) :
    (phrase.store arena none).arena.widen (phrase.store arena none).root around =
      (phrase.store arena (some around)).arena := by
  obtain ⟨front, length, nodes⟩ := phrase.nodes_eq_concat arena.size
  rw [phrase.store_eq, phrase.store_eq, nodes none, nodes (some around), ← length,
    Arena.widen_last]
  exact congrArg (fun span => arena.append (front ++ [⟨phrase.form arena.size, span⟩])) covers

theorem cover_of_inOrder {first second : Phrase} {between : List Token}
    (inOrder : InOrder (first.tokens ++ (between ++ second.tokens))) :
    first.span.cover second.span = ⟨first.span.start, second.span.stop⟩ := by
  have firstPlace := span_start_lt_stop (inOrder.sublist (List.sublist_append_left ..))
  have secondPlace := span_start_lt_stop (inOrder.sublist
    ((List.sublist_append_right between second.tokens).trans (List.sublist_append_right ..)))
  have apart : first.last.stop ≤ second.first.start :=
    (List.pairwise_append.mp inOrder.ordered).2.2 _ first.last_mem _
      (List.mem_append_right between second.first_mem)
  rw [← first.span_stop, ← second.span_start] at apart
  rw [Span.cover, Nat.min_eq_left (by omega), Nat.max_eq_right (by omega)]

end Phrase

end ClamSyntax
