import ClamSyntax.Proofs.Session.Excerpt

namespace ClamSyntax

/-- The text with a pair of parentheses around a range of it. -/
def Text.parenthesise? (text : List Char) (range : Span) : Option (List Char) := do
  let front ← slice? text ⟨0, range.start⟩
  let part ← slice? text range
  let back ← slice? text ⟨range.stop, size text⟩
  return front ++ '(' :: (part ++ ')' :: back)

/-- Where a token that starts at the offset starts after a pair was put around the range. -/
def Span.startBeyond (around : Span) (offset : Nat) : Nat :=
  offset + (if around.start ≤ offset then 1 else 0) + (if around.stop ≤ offset then 1 else 0)

/-- Where a token that stops at the offset stops after a pair was put around the range. -/
def Span.stopBeyond (around : Span) (offset : Nat) : Nat :=
  offset + (if around.start < offset then 1 else 0) + (if around.stop < offset then 1 else 0)

/-- The range in the text with a pair around another range. -/
def Span.displaced (around span : Span) : Span :=
  span.transport around.startBeyond around.stopBeyond

/-- The arena after a pair of parentheses was put around a range: the same nodes at the same
positions. From the top on, those that cover the range cover the pair; all other ranges
contain the same text as before. -/
def Arena.WrappedAs (arena wrapped : Arena) (around : Span) (top : Nat) : Prop :=
  wrapped.size = arena.size ∧ ∀ index node, arena.get? index = some node →
    wrapped.get? index = some ⟨node.form.rebase id around.displaced,
      if top ≤ index ∧ node.span.start ≤ around.start ∧ around.stop ≤ node.span.stop then
        ⟨node.span.start, node.span.stop + 2⟩
      else around.displaced node.span⟩

private theorem Text.parenthesise?_append (front part back : List Char) :
    parenthesise? (front ++ part ++ back) ⟨size front, size front + size part⟩ =
      some (front ++ '(' :: (part ++ ')' :: back)) := by
  have first := slice?_append [] front (part ++ back)
  have middle := slice?_append front part back
  have last := slice?_append (front ++ part) back []
  simp only [List.nil_append, size_nil, Nat.zero_add, List.append_nil, size_append,
    ← List.append_assoc] at first last
  rw [parenthesise?, first, middle, size_append, size_append, last]
  rfl

section Beyond

variable {around : Span} (nonempty : around.start < around.stop)
include nonempty

private theorem Span.startBeyond_before {offset : Nat} (before : offset < around.start) :
    around.startBeyond offset = offset := by
  simp only [startBeyond]
  split_ifs <;> omega

omit nonempty in
private theorem Span.startBeyond_inside {offset : Nat} (begun : around.start ≤ offset)
    (before : offset < around.stop) : around.startBeyond offset = 1 + offset := by
  simp only [startBeyond]
  split_ifs <;> omega

private theorem Span.startBeyond_behind {offset : Nat} (behind : around.stop ≤ offset) :
    around.startBeyond offset = 2 + offset := by
  simp only [startBeyond]
  split_ifs <;> omega

private theorem Span.startBeyond_le_iff (offset : Nat) :
    around.startBeyond offset ≤ around.startBeyond around.start ↔ offset ≤ around.start := by
  simp only [startBeyond]
  split_ifs <;> omega

private theorem Span.le_stopBeyond_iff (offset : Nat) :
    around.stopBeyond around.stop ≤ around.stopBeyond offset ↔ around.stop ≤ offset := by
  simp only [stopBeyond]
  split_ifs <;> omega

private theorem Span.widen_displaced (span : Span) :
    (around.displaced span).widen (around.displaced around) ⟨around.start, around.stop + 2⟩ =
      if span.start ≤ around.start ∧ around.stop ≤ span.stop then ⟨span.start, span.stop + 2⟩
      else around.displaced span := by
  simp only [widen, displaced, transport, startBeyond_le_iff nonempty,
    le_stopBeyond_iff nonempty]
  by_cases covers : span.start ≤ around.start ∧ around.stop ≤ span.stop
  · obtain ⟨start, stop⟩ := covers
    have begins : min (around.startBeyond span.start) around.start = span.start := by
      simp only [startBeyond]
      split_ifs <;> omega
    have ends : max (around.stopBeyond span.stop) (around.stop + 2) = span.stop + 2 := by
      simp only [stopBeyond]
      split_ifs <;> omega
    rw [if_pos ⟨start, stop⟩, if_pos ⟨start, stop⟩, cover, begins, ends]
  · rw [if_neg covers, if_neg covers]

private theorem Token.carried_beyond {token : Token} (extended : token.start < token.stop)
    (apart : token.stop ≤ around.start ∨
      (around.start ≤ token.start ∧ token.stop ≤ around.stop) ∨ around.stop ≤ token.start) :
    token.Carried around.startBeyond around.stopBeyond := by
  change around.stopBeyond token.stop = around.startBeyond token.start + Text.size token.text
  have stop : token.stop = token.start + Text.size token.text := rfl
  simp only [Span.startBeyond, Span.stopBeyond]
  split_ifs <;> omega

end Beyond

namespace Phrase

variable {path : Path} {part : Phrase}

/-- The phrase with a pair of parentheses around the part at the end of the path, everything
moved to where it stands then. -/
def Path.wrap (path : Path) (part : Phrase) : Phrase :=
  (path.relocate part.span.startBeyond).fill
    (.group part.span.start (part.relocate part.span.startBeyond) (part.span.stop + 1))

private theorem Path.tokens_wrap (inOrder : InOrder (path.fill part).tokens) :
    (path.wrap part).tokens = path.before ++ Symbol.leftParen.at part.span.start ::
      (part.tokens.map (Token.relocate (1 + ·)) ++ Symbol.rightParen.at (part.span.stop + 1) ::
        path.after.map (Token.relocate (2 + ·))) := by
  obtain ⟨ahead, inside, behind⟩ := path.laid_out inOrder
  have positive := span_start_lt_stop (inOrder.sublist (path.tokens_sublist part))
  have extended := inOrder.extended
  simp only [path.tokens_fill, List.forall_mem_append] at extended
  have before : path.before.map (Token.relocate part.span.startBeyond) = path.before := by
    refine (List.map_congr_left fun token member => ?_).trans (List.map_id _)
    exact congrArg (Token.mk token.lexeme)
      (Span.startBeyond_before positive (path.start_lt inOrder token member))
  have within : part.tokens.map (Token.relocate part.span.startBeyond) =
      part.tokens.map (Token.relocate (1 + ·)) := by
    refine List.map_congr_left fun token member => ?_
    obtain ⟨start, stop⟩ := inside token member
    exact congrArg (Token.mk token.lexeme)
      (Span.startBeyond_inside start (Nat.lt_of_lt_of_le (extended.2.1 token member) stop))
  have after : path.after.map (Token.relocate part.span.startBeyond) =
      path.after.map (Token.relocate (2 + ·)) := by
    refine List.map_congr_left fun token member => ?_
    exact congrArg (Token.mk token.lexeme)
      (Span.startBeyond_behind positive (behind token member))
  rw [wrap, tokens_fill, before_relocate, after_relocate, before, after, tokens, tokens_relocate,
    within]
  simp

private theorem Path.carried_beyond (inOrder : InOrder (path.fill part).tokens) :
    ∀ token ∈ (path.fill part).tokens,
      token.Carried part.span.startBeyond part.span.stopBeyond := by
  obtain ⟨ahead, inside, behind⟩ := path.laid_out inOrder
  have positive := span_start_lt_stop (inOrder.sublist (path.tokens_sublist part))
  intro token member
  refine Token.carried_beyond positive (inOrder.extended token member) ?_
  rw [path.tokens_fill, List.mem_append, List.mem_append] at member
  rcases member with before | here | after
  · exact .inl (ahead token before)
  · exact .inr (.inl (inside token here))
  · exact .inr (.inr (behind token after))

private theorem Path.grammatical_wrap (grammatical : (path.fill part).Grammatical) :
    (path.wrap part).Grammatical := by
  have inside := group_mayReplace part.span.start (part.relocate part.span.startBeyond)
    (part.span.stop + 1)
  refine ((path.relocate part.span.startBeyond).mayReplace_fill inside).grammatical ?_
  rw [path.fill_relocate]
  exact ((path.fill part).grammatical_relocate _).mpr grammatical

theorem Path.preceding_wrap (path : Path) (part : Phrase) :
    (path.wrap part).preceding = (path.fill part).preceding := by
  have bare : ((path.relocate part.span.startBeyond).fill
      (part.relocate part.span.startBeyond)).preceding = (path.fill part).preceding := by
    rw [path.fill_relocate, Phrase.preceding_relocate]
  rw [← bare]
  exact Path.preceding_fill _ rfl

/-- The nodes with a pair of parentheses around a part are those without it, displaced; from
the root of the part on, those that covered the part are widened. -/
theorem Path.stored_wrap (inOrder : InOrder (path.fill part).tokens)
    (inOrderWrapped : InOrder (path.wrap part).tokens) :
    (path.fill part).stored.WrappedAs (path.wrap part).stored part.span
      (path.offset + part.preceding) := by
  have positive := span_start_lt_stop (inOrder.sublist (path.tokens_sublist part))
  have carried := path.carried_beyond inOrder
  have span := span_relocate fun token member =>
    carried token ((path.tokens_sublist part).subset member)
  have moved := nodes_transport 0 none carried
  obtain ⟨front, back, length, bare, wrapped⟩ :=
    (path.relocate part.span.startBeyond).nodes_wrap 0 none inOrderWrapped (by rintro _ ⟨⟩)
  rw [path.fill_relocate, show Phrase.nodes 0 none _ = _ from moved] at bare
  rw [path.offset_relocate, part.preceding_relocate] at length
  rw [span] at wrapped
  change (path.wrap part).nodes 0 none = _ at wrapped
  refine ⟨?_, fun index node found => ?_⟩
  · rw [stored_size, stored_size, path.preceding_wrap]
  · rw [get?_stored] at found ⊢
    have here : (front ++ back)[index]? = some (node.rebase id part.span.displaced) := by
      rw [← bare, List.getElem?_map, found]
      rfl
    rw [wrapped, ← length]
    by_cases behind : front.length ≤ index
    · have widened := Span.widen_displaced positive node.span
      rw [List.getElem?_append_right behind] at here ⊢
      simp only [List.getElem?_map, here, behind, true_and, ← widened]
      rfl
    · rw [List.getElem?_append_left (Nat.not_le.mp behind)] at here ⊢
      rw [here, if_neg fun widened => behind widened.1]
      rfl

/-- The text with a pair of parentheses around a part is read as the phrase with them. -/
theorem Path.parenthesised {source : List Char}
    (spelled : (path.fill part).tokens = Lexer.tokens source)
    (grammatical : (path.fill part).Grammatical) :
    ∃ text wrapped, Text.parenthesise? source part.span = some text ∧
      parse text = .ok (wrapped, (path.fill part).preceding) ∧
      (path.fill part).stored.WrappedAs wrapped part.span (path.offset + part.preceding) := by
  have inOrder := inOrder_of_spelled spelled
  obtain ⟨front, text, back, rfl, span, -, wrapped⟩ := exists_excerpt_of_path grammatical spelled
  rw [← path.tokens_wrap inOrder] at wrapped
  refine ⟨front ++ '(' :: (text ++ ')' :: back), (path.wrap part).stored, ?_, ?_,
    path.stored_wrap inOrder (inOrder_of_spelled wrapped.symm)⟩
  · rw [span]
    exact Text.parenthesise?_append front text back
  · rw [← path.preceding_wrap]
    exact parse_eq_ok_iff.mpr ⟨_, wrapped.symm, path.grammatical_wrap grammatical, rfl⟩

private theorem Path.outermost_of_layer {arena : Arena} {base index opening arrow : Nat}
    {first : Name}
    {more : List Name} {body : Phrase} (inOrder : InOrder (path.fill part).tokens)
    (stored : Cell.StoredIn arena ⟨base, path.around none, part⟩)
    (isFunction : part = .function opening first more arrow body)
    (low : base + body.preceding < index) (high : index ≤ base + part.preceding) :
    Relation.ReflTransGen (arena.Curried (path.fill part).tokens) index
      (base + part.preceding) := by
  induction high using Nat.decreasingInduction with
  | self => exact .refl
  | of_succ place below ih =>
    exact .head (path.curried_of_layer inOrder stored isFunction low below)
      (ih (Nat.lt_succ_of_lt low))

end Phrase

/-- The top is the outermost layer of the function of which the node is a layer, and the node
itself if it is no function or the outermost layer. -/
def Arena.OutermostLayer (arena : Arena) (tokens : List Token) (index top : Nat) : Prop :=
  Relation.ReflTransGen (arena.Curried tokens) index top ∧ ∀ outer, ¬ arena.Curried tokens top outer

/-- A pair of parentheses around the range of any node leaves the tree as it is. The outermost
layer of the node covers the pair. -/
theorem parenthesised_parsed {source : List Char} {arena : Arena} {root index : Nat} {node : Node}
    (accepted : parse source = .ok (arena, root)) (found : arena.get? index = some node) :
    ∃ text wrapped top outermost, Text.parenthesise? source node.span = some text ∧
      parse text = .ok (wrapped, root) ∧
      arena.OutermostLayer (Lexer.tokens source) index top ∧
      arena.get? top = some outermost ∧ outermost.span.start ≤ node.span.start ∧
      node.span.stop ≤ outermost.span.stop ∧ arena.WrappedAs wrapped node.span top := by
  obtain ⟨phrase, spelled, grammatical, same⟩ := parse_eq_ok_iff.mp accepted
  cases same
  obtain ⟨path, part, rfl, -, span, place⟩ := phrase.exists_path grammatical found
  have inOrder := Phrase.inOrder_of_spelled spelled
  have last : ∀ outer, ¬ (path.fill part).stored.Curried (Lexer.tokens source)
      (path.offset + part.preceding) outer := by
    rw [← spelled]
    exact Phrase.Path.not_curried inOrder (path.fill part).stored_holds (path.fill part).stored_size
  obtain ⟨text, wrapped, cut, parsed, covers⟩ := Phrase.Path.parenthesised spelled grammatical
  rw [← span] at cut covers
  rcases place with ⟨rfl, -⟩ | ⟨opening, first, more, arrow, body, isFunction, low, high⟩
  · exact ⟨text, wrapped, _, node, cut, parsed, ⟨.refl, last⟩, found, Nat.le_refl _, Nat.le_refl _,
      covers⟩
  · have stored := path.storedIn part
    have chain := Phrase.Path.outermost_of_layer inOrder stored isFunction low (Nat.le_of_lt high)
    rw [spelled] at chain
    obtain ⟨start, stop⟩ := path.around_covers inOrder
    refine ⟨text, wrapped, _, _, cut, parsed, ⟨chain, last⟩, part.root_of_holds stored, ?_, ?_,
      covers⟩
    · rw [span]
      exact start
    · rw [span]
      exact stop

/-- Around the inner layer of `fun a b => a` the parentheses are those of the outer layer. -/
theorem inner_layer_parenthesised :
    let arena : Arena :=
      ⟨#[⟨.name "a", ⟨11, 12⟩⟩, ⟨.function "b" 0, ⟨0, 12⟩⟩, ⟨.function "a" 1, ⟨0, 12⟩⟩]⟩
    ∃ text wrapped top outermost, Text.parenthesise? "fun a b => a".toList ⟨0, 12⟩ = some text ∧
      parse text = .ok (wrapped, 2) ∧
      arena.OutermostLayer (Lexer.tokens "fun a b => a".toList) 1 top ∧
      arena.get? top = some outermost ∧ outermost.span.start ≤ 0 ∧ 12 ≤ outermost.span.stop ∧
      arena.WrappedAs wrapped ⟨0, 12⟩ top := by
  intro arena
  have accepted : parse "fun a b => a".toList = .ok (arena, 2) := by cbv
  have found : arena.get? 1 = some ⟨.function "b" 0, ⟨0, 12⟩⟩ := rfl
  exact parenthesised_parsed accepted found

/-- The node itself need not cover the pair: the inner layer of `fun a b => a` does not. -/
theorem inner_layer_uncovered :
    ¬ ∀ (source : List Char) (arena : Arena) (root index : Nat) (node : Node),
      parse source = .ok (arena, root) → arena.get? index = some node →
        ∃ text wrapped after, Text.parenthesise? source node.span = some text ∧
          parse text = .ok (wrapped, root) ∧ wrapped.get? index = some after ∧
          after.span.start ≤ node.span.start ∧ node.span.stop + 2 ≤ after.span.stop := by
  intro covers
  have accepted : parse "fun a b => a".toList = .ok (⟨#[⟨.name "a", ⟨11, 12⟩⟩,
    ⟨.function "b" 0, ⟨0, 12⟩⟩, ⟨.function "a" 1, ⟨0, 12⟩⟩]⟩, 2) := by cbv
  obtain ⟨text, wrapped, after, cut, parsed, here, start, -⟩ := covers _ _ _ 1 _ accepted rfl
  have same : Text.parenthesise? "fun a b => a".toList ⟨0, 12⟩ =
      some "(fun a b => a)".toList := by cbv
  cases same.symm.trans cut
  have read : parse "(fun a b => a)".toList = .ok (⟨#[⟨.name "a", ⟨12, 13⟩⟩,
    ⟨.function "b" 0, ⟨1, 13⟩⟩, ⟨.function "a" 1, ⟨0, 14⟩⟩]⟩, 2) := by cbv
  cases read.symm.trans parsed
  cases here
  exact absurd start (by decide)

end ClamSyntax
