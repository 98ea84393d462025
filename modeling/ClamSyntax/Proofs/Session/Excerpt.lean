import ClamSyntax.Proofs.Arena.Layers
import ClamSyntax.Proofs.Session.Parse
import ClamSyntax.Proofs.Token.Boundary

namespace ClamSyntax

/-- The node is a function and the body of a function. -/
def Arena.IsInnerFunction (arena : Arena) (index : Nat) : Prop :=
  ∃ outer param other body span range,
    arena.get? index = some ⟨.function param body, span⟩ ∧
      arena.get? outer = some ⟨.function other index, range⟩

private theorem Arena.Curried.isInnerFunction {arena : Arena} {tokens : List Token}
    {inner outer : Nat}
    (curried : arena.Curried tokens inner outer) : arena.IsInnerFunction inner := by
  obtain ⟨param, other, body, first, second, here, next, -⟩ := curried
  exact ⟨outer, param, other, body, first, second, here, next⟩

/-- Tokens are those of one grammatical phrase at most. -/
theorem Phrase.eq_of_tokens {phrase other : Phrase} (grammatical : phrase.Grammatical)
    (grammaticalOther : other.Grammatical) (same : phrase.tokens = other.tokens) :
    phrase = other := by
  have read := program_ok_iff.mpr ⟨same, grammatical⟩
  rw [program_ok_iff.mpr ⟨rfl, grammaticalOther⟩] at read
  exact (Except.ok.inj read).symm

theorem Phrase.proper_of_spelled {phrase : Phrase} {source : List Char}
    (grammatical : phrase.Grammatical) (spelled : phrase.tokens = Lexer.tokens source) :
    ∀ token ∈ phrase.tokens, token.lexeme.Proper := by
  intro token member
  have valid := phrase.kind_ne_invalid grammatical token member
  rw [spelled] at member
  refine (Lexer.tokens_proper source token member).resolve_right ?_
  rintro ⟨text, invalid⟩
  exact valid (congrArg Lexeme.kind invalid)

theorem Phrase.inOrder_of_spelled {phrase : Phrase} {source : List Char}
    (spelled : phrase.tokens = Lexer.tokens source) : InOrder phrase.tokens := by
  rw [spelled]
  exact Lexer.tokens_inOrder source

private theorem Phrase.le_preceding_of_stored {phrase : Phrase} {index : Nat} {node : Node}
    (found : phrase.stored.get? index = some node) : index ≤ phrase.preceding := by
  obtain ⟨inside, -⟩ := Array.getElem?_eq_some_iff.mp found
  change index < phrase.stored.size at inside
  rw [phrase.stored_size] at inside
  exact Nat.le_of_lt_succ inside

theorem Phrase.Path.storedIn (path : Path) (part : Phrase) :
    Cell.StoredIn (path.fill part).stored ⟨path.offset, path.around none, part⟩ := by
  have stored := holds_part (path.fill part).stored_holds
  rw [Nat.zero_add] at stored
  exact stored

/-- Every node of a stored phrase has the range of a part. It is the root of the part, which
then stands in no parentheses, or an inner layer of it. -/
theorem Phrase.exists_path {phrase : Phrase} (grammatical : phrase.Grammatical) {index : Nat}
    {node : Node} (found : phrase.stored.get? index = some node) :
    ∃ (path : Path) (part : Phrase), path.fill part = phrase ∧ part.Grammatical ∧
      node.span = part.span ∧
      ((index = path.offset + part.preceding ∧ path.around none = none) ∨
      ∃ opening first more arrow body, part = .function opening first more arrow body ∧
        path.offset + body.preceding < index ∧ index < path.offset + part.preceding) := by
  obtain ⟨⟨place, outer, part⟩, within, split⟩ := Cell.exists_within index ⟨0, none, phrase⟩
    ⟨Nat.zero_le _, by
      rw [Cell.root, Nat.zero_add]
      exact le_preceding_of_stored found⟩
  obtain ⟨path, filled, base, -⟩ := within.exists_path
  have grammaticalPart := within.grammatical grammatical
  change phrase = path.fill part at filled
  change place = 0 + path.offset at base
  subst filled
  rw [Nat.zero_add] at base
  subst base
  rcases split with ⟨rfl, -⟩ | ⟨opening, first, more, arrow, body, isFunction, low, high⟩
  · obtain ⟨bare, wider, same, offset, preceding, grammaticalWider, -, alone⟩ :=
      path.exists_bare part
    have around : bare.around none = none := by
      rcases alone with rfl | alone
      · rfl
      · exact alone.around none
    have root : Cell.root ⟨path.offset, outer, part⟩ = bare.offset + wider.preceding := by
      rw [Cell.root, offset, preceding]
    have atRoot := wider.root_of_holds (bare.storedIn wider)
    rw [same, around, ← root] at atRoot
    exact ⟨bare, wider, same, grammaticalWider grammaticalPart,
      congrArg Node.span (Option.some.inj (found.symm.trans atRoot)), .inl ⟨root, around⟩⟩
  · refine ⟨path, part, rfl, grammaticalPart, ?_,
      .inr ⟨opening, first, more, arrow, body, isFunction, low, high⟩⟩
    obtain ⟨before, rfl⟩ := Nat.exists_eq_add_one_of_ne_zero (Nat.ne_zero_of_lt low)
    obtain ⟨param, span, here, shared⟩ := Cell.exists_layer (path.storedIn part) isFunction
      (Nat.le_of_lt_succ low) (Nat.lt_of_succ_lt high)
    cases found.symm.trans here
    exact shared.resolve_right fun atRoot => absurd atRoot.1 (Nat.ne_of_lt high)

/-- The text of a part has the tokens of the part, and in parentheses it keeps them. -/
theorem exists_excerpt_of_path {source : List Char} {path : Phrase.Path} {part : Phrase}
    (grammatical : (path.fill part).Grammatical)
    (spelled : (path.fill part).tokens = Lexer.tokens source) :
    ∃ front text back, source = front ++ text ++ back ∧
      part.span = ⟨Text.size front, Text.size front + Text.size text⟩ ∧
      (Lexer.tokens text).map (Token.relocate (part.span.start + ·)) = part.tokens ∧
      Lexer.tokens (front ++ '(' :: (text ++ ')' :: back)) =
        path.before ++ Symbol.leftParen.at part.span.start ::
          (part.tokens.map (Token.relocate (1 + ·)) ++
            Symbol.rightParen.at (part.span.stop + 1) ::
              path.after.map (Token.relocate (2 + ·))) := by
  have proper := (path.fill part).proper_of_spelled grammatical spelled
  rw [path.tokens_fill, ← List.append_assoc] at spelled proper
  obtain ⟨rest, begins⟩ := part.exists_tokens_eq_cons
  obtain ⟨front, ends⟩ := part.exists_tokens_eq_concat
  have head : part.first ∈ part.tokens.head? := by
    rw [begins]
    rfl
  have final : part.last ∈ part.tokens.getLast? := by
    rw [ends, List.getLast?_concat]
    rfl
  obtain ⟨front, text, back, same, start, stop, alone, wrapped⟩ := Lexer.exists_excerpt
    spelled.symm (fun token member => proper token (List.mem_append_left _ member)) head final
  refine ⟨front, text, back, same, ?_, ?_, ?_⟩
  · rw [part.span_eq, start, stop]
  · rw [part.span_start]
    exact alone
  · rw [part.span_start, part.span_stop]
    exact wrapped

/-- A part of a phrase is what its own text is read as, moved to its place. -/
theorem Phrase.exists_of_excerpt {part : Phrase} {text : List Char} {start : Nat}
    (grammatical : part.Grammatical)
    (alone : (Lexer.tokens text).map (Token.relocate (start + ·)) = part.tokens) :
    ∃ phrase : Phrase, phrase.tokens = Lexer.tokens text ∧ phrase.Grammatical ∧
      phrase.relocate (start + ·) = part := by
  have back : Token.relocate (· - start) ∘ Token.relocate (start + ·) = id := by
    funext token
    exact congrArg (Token.mk token.lexeme) (Nat.add_sub_cancel_left ..)
  have spelled : (part.relocate (· - start)).tokens = Lexer.tokens text := by
    rw [part.tokens_relocate, ← alone, List.map_map, back, List.map_id]
  have grammaticalMoved := (part.grammatical_relocate (· - start)).mpr grammatical
  refine ⟨part.relocate (· - start), spelled, grammaticalMoved, ?_⟩
  refine eq_of_tokens ((Phrase.grammatical_relocate ..).mpr grammaticalMoved) grammatical ?_
  rw [Phrase.tokens_relocate, spelled, alone]

/-- The part of the arena that ends at the index is what the text under the range reads as,
with its positions counted from a base and its offsets from the start of the range. -/
def Arena.Excerpted (arena : Arena) (source : List Char) (index : Nat) (range : Span) : Prop :=
  ∃ text part top base, Text.slice? source range = some text ∧ parse text = .ok (part, top) ∧
    part.size = top + 1 ∧ base + top = index ∧
    ∀ place inner, part.get? place = some inner → arena.get? (base + place) =
      some (inner.rebase (base + ·) (Span.transport (range.start + ·) (range.start + ·)))

private theorem Phrase.Path.excerpted {source : List Char} {path : Path} {part : Phrase}
    (spelled : (path.fill part).tokens = Lexer.tokens source)
    (grammatical : (path.fill part).Grammatical) (grammaticalPart : part.Grammatical)
    (bare : path.around none = none) :
    (path.fill part).stored.Excerpted source (path.offset + part.preceding) part.span := by
  obtain ⟨front, text, back, rfl, span, alone, -⟩ := exists_excerpt_of_path grammatical spelled
  have stored := path.storedIn part
  rw [bare] at stored
  rw [span] at alone ⊢
  obtain ⟨phrase, spelledText, grammaticalText, rfl⟩ :=
    exists_of_excerpt grammaticalPart alone
  have carried : ∀ token ∈ phrase.tokens,
      token.Carried (Text.size front + ·) (Text.size front + ·) :=
    fun token _ => (Nat.add_assoc ..).symm
  have moved := phrase.nodes_relocate path.offset 0 none carried
  rw [Nat.add_zero, Option.map_none] at moved
  refine ⟨text, phrase.stored, phrase.preceding, path.offset, Text.slice?_append front text back,
    parse_eq_ok_iff.mpr ⟨phrase, spelledText, grammaticalText, rfl⟩, phrase.stored_size, ?_, ?_⟩
  · rw [phrase.preceding_relocate]
  · intro place inner found
    rw [phrase.get?_stored] at found
    refine stored place _ ?_
    rw [moved, List.getElem?_map, found]
    rfl

/-- The text under the range of a node, which is no inner function, is read as the tree of
that node: the same forms, and the ranges as far from the start of the text as they are from
the start of the node. -/
theorem excerpt_parsed {source : List Char} {arena : Arena} {root index : Nat} {node : Node}
    (accepted : parse source = .ok (arena, root)) (found : arena.get? index = some node)
    (notInner : ¬ arena.IsInnerFunction index) :
    arena.Excerpted source index node.span := by
  obtain ⟨phrase, spelled, grammatical, same⟩ := parse_eq_ok_iff.mp accepted
  cases same
  obtain ⟨path, part, rfl, grammaticalPart, span, place⟩ := phrase.exists_path grammatical found
  rcases place with ⟨rfl, bare⟩ | ⟨opening, first, more, arrow, body, isFunction, low, high⟩
  · rw [span]
    exact Phrase.Path.excerpted spelled grammatical grammaticalPart bare
  · have curried := path.curried_of_layer (Phrase.inOrder_of_spelled spelled)
      (path.storedIn part) isFunction low high
    exact absurd curried.isInnerFunction notInner

/-- In `(a + (b))[i]` the sum is read again from the text of its parentheses. -/
theorem sum_excerpted :
    let arena : Arena := ⟨#[⟨.name "a", ⟨1, 2⟩⟩, ⟨.name "b", ⟨5, 8⟩⟩,
      ⟨.binary .add ⟨3, 4⟩ 0 1, ⟨0, 9⟩⟩, ⟨.name "i", ⟨10, 11⟩⟩, ⟨.subscript 2 3, ⟨0, 12⟩⟩]⟩
    arena.Excerpted "(a + (b))[i]".toList 2 ⟨0, 9⟩ := by
  intro arena
  have accepted : parse "(a + (b))[i]".toList = .ok (arena, 4) := by cbv
  have found : arena.get? 2 = some ⟨.binary .add ⟨3, 4⟩ 0 1, ⟨0, 9⟩⟩ := rfl
  have notInner : ¬ arena.IsInnerFunction 2 := by
    rintro ⟨_, _, _, _, _, _, here, -⟩
    cases found.symm.trans here
  exact excerpt_parsed accepted found notInner

end ClamSyntax
