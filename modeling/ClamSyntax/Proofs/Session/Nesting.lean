import ClamSyntax.Proofs.Arena.Parts
import ClamSyntax.Proofs.Session.Excerpt

namespace ClamSyntax

private theorem Span.Spells.exists_marks {source : List Char} {span : Span}
    (spells : span.Spells (Lexer.tokens source)) (extended : span.start < span.stop) :
    ∃ text, span.Marks source text := by
  obtain ⟨first, begins, last, ends, rfl⟩ := spells
  obtain ⟨before, after, same, start⟩ := Lexer.tokensFrom_stand 0 source first begins
  obtain ⟨front, back, split, place⟩ := Lexer.tokensFrom_stand 0 source last ends
  have stop : last.stop = Text.size (front ++ last.text) := by
    rw [Token.stop, place, Nat.zero_add, Text.size_append]
  rw [Nat.zero_add] at start
  have ahead : before <+: source := ⟨first.text ++ after, by rw [same, List.append_assoc]⟩
  have upTo : front ++ last.text <+: source := ⟨back, split.symm⟩
  simp only [start, stop] at extended ⊢
  rcases List.prefix_or_prefix_of_prefix ahead upTo with ⟨text, joined⟩ | ⟨text, joined⟩
  · rw [← joined, Text.size_append] at extended ⊢
    rw [← joined] at split
    refine ⟨text, ?_, before, back, split, rfl⟩
    rintro rfl
    exact Nat.lt_irrefl _ extended
  · rw [← joined, Text.size_append] at extended
    omega

/-- The node has a range in the source, and so has all that the node names: in the range of
the node, in source order and without overlap. -/
structure Arena.Nests (arena : Arena) (source : List Char) (node : Node) : Prop where
  marked : ∃ text, node.span.Marks source text
  nested : ∃ spans : List Span, node.form.parts.map arena.range? = spans.map some ∧
    spans.Pairwise (fun earlier later => earlier.stop ≤ later.start) ∧
      ∀ span ∈ spans, node.span.start ≤ span.start ∧ span.stop ≤ node.span.stop ∧
        ∃ text, span.Marks source text

private theorem Phrase.exists_lays {phrase : Phrase} (grammatical : phrase.Grammatical)
    {index : Nat}
    {node : Node} (found : phrase.stored.get? index = some node) :
    ∃ (path : Path) (part : Phrase), path.fill part = phrase ∧ node.span = part.span ∧
      phrase.stored.Lays part.tokens node.form.parts := by
  obtain ⟨path, part, rfl, -, span, place⟩ := phrase.exists_path grammatical found
  refine ⟨path, part, rfl, span, ?_⟩
  have stored := path.storedIn part
  rcases place with ⟨rfl, -⟩ | ⟨opening, first, more, arrow, body, isFunction, low, high⟩
  · cases found.symm.trans (part.root_of_holds stored)
    exact part.lays path.offset _ stored
  · obtain ⟨before, rfl⟩ := Nat.exists_eq_add_one_of_ne_zero (Nat.ne_zero_of_lt low)
    have low := Nat.le_of_lt_succ low
    have high := Nat.lt_of_succ_lt high
    obtain ⟨param, range, here, -⟩ := Cell.exists_layer stored isFunction low high
    cases found.symm.trans here
    exact Cell.lays_layer stored isFunction low high

/-- In an accepted source the ranges of every node nest. -/
theorem accepted_nests {source : List Char} {arena : Arena} {root index : Nat} {node : Node}
    (accepted : parse source = .ok (arena, root)) (found : arena.get? index = some node) :
    arena.Nests source node := by
  obtain ⟨phrase, spelled, grammatical, same⟩ := parse_eq_ok_iff.mp accepted
  cases same
  have inOrder := Phrase.inOrder_of_spelled spelled
  obtain ⟨path, part, filled, span, lays⟩ := phrase.exists_lays grammatical found
  have within : part.tokens.Sublist phrase.tokens := by
    rw [← filled]
    exact path.tokens_sublist part
  have inOrderPart := inOrder.sublist within
  have marks {span : Span} (extended : span.start < span.stop) (spells : span.Spells part.tokens) :
      ∃ text, span.Marks source text := by
    have whole := spells.mono within.subset
    rw [spelled] at whole
    exact whole.exists_marks extended
  obtain ⟨spans, ranges, row⟩ := lays.exists_inRow inOrderPart
  constructor
  · rw [span]
    exact marks (Phrase.span_start_lt_stop inOrderPart) part.span_spells
  · refine ⟨spans, ranges, row.ordered, fun inner member => ?_⟩
    obtain ⟨extended, spells⟩ := row.spelled inner member
    obtain ⟨start, stop⟩ := spells.within inOrderPart
    rw [← span] at start stop
    exact ⟨start, stop, marks extended spells⟩

/-- In `let x = (1) in x` the name, the literal with its parentheses and the body stand in the
range of the `let` one behind the other. -/
theorem let_nests :
    let arena : Arena := ⟨#[⟨.literal (.int 1), ⟨8, 11⟩⟩, ⟨.name "x", ⟨15, 16⟩⟩,
      ⟨.letIn [⟨⟨4, 5⟩, "x", 0⟩] 1, ⟨0, 16⟩⟩]⟩
    arena.Nests "let x = (1) in x".toList ⟨.letIn [⟨⟨4, 5⟩, "x", 0⟩] 1, ⟨0, 16⟩⟩ := by
  intro arena
  have accepted : parse "let x = (1) in x".toList = .ok (arena, 2) := by cbv
  have found : arena.get? 2 = some ⟨.letIn [⟨⟨4, 5⟩, "x", 0⟩] 1, ⟨0, 16⟩⟩ := rfl
  exact accepted_nests accepted found

end ClamSyntax
