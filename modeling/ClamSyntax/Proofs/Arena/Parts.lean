import ClamSyntax.Proofs.Arena.Layers

namespace ClamSyntax

inductive Part where
  | range (span : Span)
  | child (index : Nat)

def LetBinding.parts (binding : LetBinding) : List Part :=
  [.range binding.span, .child binding.value]

/-- What the form names, in source order. -/
def Form.parts : Form → List Part
  | .literal _ | .name _ => []
  | .list items => items.map .child
  | .letIn bindings body => bindings.flatMap LetBinding.parts ++ [.child body]
  | .function _ body => [.child body]
  | .application callee argument => [.child callee, .child argument]
  | .print operand => [.child operand]
  | .conditional condition yes no => [.child condition, .child yes, .child no]
  | .unary _ place operand => [.range place, .child operand]
  | .binary _ place left right => [.child left, .range place, .child right]
  | .subscript target index => [.child target, .child index]

/-- The range of a part; none if it is a child that the store does not have. -/
def Arena.range? (arena : Arena) : Part → Option Span
  | .range span => some span
  | .child index => (arena.get? index).map Node.span

/-! Ranges in a row -/

theorem Span.Spells.within {phrase : Phrase} {span : Span} (spells : span.Spells phrase.tokens)
    (inOrder : InOrder phrase.tokens) :
    phrase.span.start ≤ span.start ∧ span.stop ≤ phrase.span.stop := by
  obtain ⟨first, begins, last, ends, rfl⟩ := spells
  constructor
  · exact (Phrase.tokens_within inOrder first begins).1
  · exact (Phrase.tokens_within inOrder last ends).2

/-- The ranges go from token to token, and no two of them overlap. -/
structure InRow (tokens : List Token) (spans : List Span) : Prop where
  ordered : spans.Pairwise fun earlier later => earlier.stop ≤ later.start
  spelled : ∀ span ∈ spans, span.start < span.stop ∧ span.Spells tokens

namespace InRow

variable {front tokens : List Token} {spans : List Span} {head : Span}

theorem mono {others : List Token} (row : InRow tokens spans) (subset : tokens ⊆ others) :
    InRow others spans where
  ordered := row.ordered
  spelled span member := (row.spelled span member).imp_right fun spells => spells.mono subset

private theorem cons (inOrder : InOrder (front ++ tokens)) (extended : head.start < head.stop)
    (spells : head.Spells front) (row : InRow tokens spans) :
    InRow (front ++ tokens) (head :: spans) where
  ordered := by
    refine .cons (fun later member => ?_) row.ordered
    obtain ⟨_, _, last, ends, same⟩ := spells
    obtain ⟨-, first, begins, _, _, sameLater⟩ := row.spelled later member
    rw [same, sameLater]
    exact (List.pairwise_append.mp inOrder.ordered).2.2 last ends first begins
  spelled := by
    refine List.forall_mem_cons.mpr ⟨⟨extended, ?_⟩, ?_⟩
    · exact spells.mono (List.subset_append_left front tokens)
    · exact (row.mono (List.subset_append_right front tokens)).spelled

end InRow

/-! Parts in the tokens of a phrase -/

namespace Arena

variable {arena : Arena} {tokens : List Token} {parts : List Part}

/-- The parts stand in the tokens from left to right. A child has the range of a phrase. -/
inductive Lays (arena : Arena) : List Token → List Part → Prop
  | done {tokens : List Token} : Lays arena tokens []
  | skip {token : Token} {tokens : List Token} {parts : List Part} :
      Lays arena tokens parts → Lays arena (token :: tokens) parts
  | range {token : Token} {tokens : List Token} {parts : List Part} :
      Lays arena tokens parts → Lays arena (token :: tokens) (.range token.span :: parts)
  | child {index : Nat} {phrase : Phrase} {tokens : List Token} {parts : List Part} :
      arena.range? (.child index) = some phrase.span → Lays arena tokens parts →
        Lays arena (phrase.tokens ++ tokens) (.child index :: parts)

namespace Lays

theorem last {index : Nat} {phrase : Phrase}
    (found : arena.range? (.child index) = some phrase.span) :
    arena.Lays phrase.tokens [.child index] := by
  have alone : arena.Lays (phrase.tokens ++ []) [.child index] := .child found .done
  rwa [List.append_nil] at alone

private theorem behind (front : List Token) (lays : arena.Lays tokens parts) :
    arena.Lays (front ++ tokens) parts := by
  induction front with
  | nil => exact lays
  | cons token front ih => exact .skip ih

private theorem before (lays : arena.Lays tokens parts) (back : List Token) :
    arena.Lays (tokens ++ back) parts := by
  induction lays with
  | done => exact .done
  | skip _ ih => exact .skip ih
  | range _ ih => exact .range ih
  | child found _ ih =>
    rw [List.append_assoc]
    exact .child found ih

/-- Parts that stand from left to right have ranges, and these do so too. -/
theorem exists_inRow (lays : arena.Lays tokens parts) (inOrder : InOrder tokens) :
    ∃ spans, parts.map arena.range? = spans.map some ∧ InRow tokens spans := by
  induction lays with
  | done => exact ⟨[], rfl, .nil, nofun⟩
  | @skip token tokens parts _ ih =>
    obtain ⟨spans, found, row⟩ := ih (inOrder.sublist (List.sublist_cons_self token tokens))
    exact ⟨spans, found, row.mono (List.subset_cons_self token tokens)⟩
  | @range token tokens parts _ ih =>
    obtain ⟨spans, found, row⟩ := ih (inOrder.sublist (List.sublist_cons_self token tokens))
    have extended := inOrder.extended token List.mem_cons_self
    have spells : token.span.Spells [token] := Token.span_spells List.mem_cons_self
    have whole : InOrder ([token] ++ tokens) := inOrder
    exact ⟨token.span :: spans, congrArg (some token.span :: ·) found,
      row.cons whole extended spells⟩
  | @child index phrase tokens parts here _ ih =>
    obtain ⟨spans, found, row⟩ := ih (inOrder.sublist (List.sublist_append_right _ tokens))
    have extended := Phrase.span_start_lt_stop
      (inOrder.sublist (List.sublist_append_left phrase.tokens tokens))
    refine ⟨phrase.span :: spans, ?_, row.cons inOrder extended phrase.span_spells⟩
    rw [List.map_cons, List.map_cons, here, found]

end Lays

theorem range?_root {base : Nat} {phrase : Phrase}
    (holds : arena.Holds base (phrase.nodes base none)) :
    arena.range? (.child (base + phrase.preceding)) = some phrase.span := by
  rw [range?, phrase.root_of_holds holds]
  rfl

end Arena

variable {arena : Arena}

private theorem Items.lays (items : Items) (base : Nat)
    (holds : arena.Holds base (items.nodes base)) :
    arena.Lays items.tokens ((items.roots base).map .child) := by
  cases items with
  | close => exact .done
  | last item => exact .child (Arena.range?_root holds) .done
  | more item comma rest =>
    simp only [Items.nodes, Arena.holds_append, Phrase.nodes_length] at holds
    exact .child (Arena.range?_root holds.1) (.skip (rest.lays _ holds.2))

private theorem Bindings.lays (bindings : Bindings) (base : Nat)
    (holds : arena.Holds base (bindings.nodes base)) {tokens : List Token} {parts : List Part}
    (behind : arena.Lays tokens parts) :
    arena.Lays (bindings.tokens ++ tokens)
      ((bindings.bound base).flatMap LetBinding.parts ++ parts) := by
  cases bindings with
  | last name assign value => exact .range (.skip (.child (Arena.range?_root holds) behind))
  | more name assign value comma rest =>
    simp only [Bindings.nodes, Arena.holds_append, Phrase.nodes_length] at holds
    have later := rest.lays _ holds.2 behind
    simp only [Bindings.tokens, List.cons_append, List.append_assoc]
    exact .range (.skip (.child (Arena.range?_root holds.1) (.skip later)))

/-- A layer of a function, and its body, have a range in the tokens of the function. -/
theorem Cell.lays_layer {cell : Cell} {index opening arrow : Nat} {first : Name}
    {more : List Name} {body : Phrase} (stored : cell.StoredIn arena)
    (isFunction : cell.phrase = .function opening first more arrow body)
    (low : cell.base + body.preceding ≤ index) (high : index < cell.root) :
    arena.Lays cell.phrase.tokens [.child index] := by
  by_cases innermost : index = cell.base + body.preceding
  · have inside : (Cell.mk cell.base none body).StoredIn arena := by
      obtain ⟨base, outer, phrase⟩ := cell
      simp only at isFunction
      subst isFunction
      exact storedIn_children stored _ List.mem_cons_self
    rw [isFunction, innermost]
    have lays : arena.Lays body.tokens _ := .last (Arena.range?_root inside)
    exact .skip (.skip ((Arena.Lays.skip lays).behind _))
  · have beyond : cell.base + body.preceding < index :=
      Nat.lt_of_le_of_ne low (Ne.symm innermost)
    obtain ⟨before, rfl⟩ := Nat.exists_eq_add_one_of_ne_zero (Nat.ne_zero_of_lt beyond)
    obtain ⟨param, span, found, same⟩ := exists_layer stored isFunction
      (Nat.le_of_lt_succ beyond) (Nat.lt_of_succ_lt high)
    have span : span = cell.phrase.span :=
      same.resolve_right fun last => absurd last.1 (Nat.ne_of_lt high)
    refine .last ?_
    rw [Arena.range?, found, span]
    rfl

/-- What the root of a phrase names stands in the tokens of the phrase from left to right. -/
theorem Phrase.lays (phrase : Phrase) (base : Nat) (outer : Option Span)
    (stored : Cell.StoredIn arena ⟨base, outer, phrase⟩) :
    arena.Lays phrase.tokens (phrase.form base).parts := by
  cases phrase with
  | literal | name => exact .done
  | list opening items => exact .skip (items.lays base (Arena.holds_append.mp stored).1)
  | letIn opening bindings inAt body =>
    simp only [Cell.StoredIn, nodes, Arena.holds_append, Bindings.nodes_length] at stored
    exact .skip (bindings.lays base stored.1 (.skip (.last (Arena.range?_root stored.2.1))))
  | function opening first more arrow body =>
    refine Cell.lays_layer stored rfl (Nat.le_add_right _ _) ?_
    simp only [Cell.root, preceding]
    omega
  | print opening operand =>
    obtain ⟨inside, -⟩ := Arena.holds_append.mp stored
    exact .skip (.last (Arena.range?_root inside))
  | conditional opening condition thenAt yes elseAt no =>
    simp only [Cell.StoredIn, nodes, Arena.holds_append, nodes_length] at stored
    obtain ⟨first, second, third, -⟩ := stored
    rw [Nat.add_assoc] at third
    have last := Arena.Lays.last (Arena.range?_root third)
    exact .skip (.child (Arena.range?_root first)
      (.skip (.child (Arena.range?_root second) (.skip last))))
  | unary op opening operand =>
    obtain ⟨inside, -⟩ := Arena.holds_append.mp stored
    exact .range (.last (Arena.range?_root inside))
  | group opening body closing =>
    have inside : Cell.StoredIn arena ⟨base, some (outer.getD ⟨opening, closing + 1⟩), body⟩ :=
      stored
    exact .skip ((body.lays base _ inside).before _)
  | binary left op place right =>
    simp only [Cell.StoredIn, nodes, Arena.holds_append, nodes_length] at stored
    have last := Arena.Lays.last (Arena.range?_root stored.2.1)
    exact .child (Arena.range?_root stored.1) (.range last)
  | application callee argument =>
    simp only [Cell.StoredIn, nodes, Arena.holds_append, nodes_length] at stored
    have last := Arena.Lays.last (Arena.range?_root stored.2.1)
    exact .child (Arena.range?_root stored.1) last
  | subscript target opening index closing =>
    simp only [Cell.StoredIn, nodes, Arena.holds_append, nodes_length] at stored
    have last : arena.Lays (index.tokens ++ [Symbol.rightBracket.at closing]) _ :=
      .child (Arena.range?_root stored.2.1) .done
    exact .child (Arena.range?_root stored.1) (.skip last)

end ClamSyntax
