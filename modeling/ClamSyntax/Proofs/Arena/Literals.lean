import ClamSyntax.Proofs.Arena.Layers

namespace ClamSyntax

section Tokens

variable {token : Token} {result : Except Literal.BadEscape Value}
  (denotes : Literal.value? token.lexeme = some result)
include denotes

theorem literal_behind {silent : Token} {rest : List Token} (member : token ∈ silent :: rest)
    (silence : Literal.value? silent.lexeme = none) : token ∈ rest := by
  refine (List.mem_cons.mp member).resolve_left ?_
  rintro rfl
  exact nomatch denotes.symm.trans silence

private theorem Items.exists_cell_of_literal :
    ∀ (items : Items) (base : Nat), token ∈ items.tokens →
    ∃ cell ∈ items.cells base, token ∈ cell.phrase.tokens
  | .close _, _, member => nomatch literal_behind denotes member rfl
  | .last item closing, base, member => by
    rcases List.mem_append.mp member with inside | closes
    · exact ⟨_, List.mem_singleton_self _, inside⟩
    · exact nomatch literal_behind denotes closes rfl
  | .more item comma rest, base, member => by
    rcases List.mem_append.mp member with inside | behind
    · exact ⟨_, List.mem_cons_self, inside⟩
    · obtain ⟨cell, listed, inside⟩ :=
        rest.exists_cell_of_literal _ (literal_behind denotes behind rfl)
      exact ⟨cell, List.mem_cons_of_mem _ listed, inside⟩

private theorem Bindings.exists_cell_of_literal : ∀ (bindings : Bindings) (base : Nat),
    token ∈ bindings.tokens → ∃ cell ∈ bindings.cells base, token ∈ cell.phrase.tokens
  | .last name assign value, base, member => by
    have inside := literal_behind denotes (literal_behind denotes member rfl) rfl
    exact ⟨_, List.mem_singleton_self _, inside⟩
  | .more name assign value comma rest, base, member => by
    have others := literal_behind denotes (literal_behind denotes member rfl) rfl
    rcases List.mem_append.mp others with inside | later
    · exact ⟨_, List.mem_cons_self, inside⟩
    · obtain ⟨cell, listed, inside⟩ :=
        rest.exists_cell_of_literal _ (literal_behind denotes later rfl)
      exact ⟨cell, List.mem_cons_of_mem _ listed, inside⟩

namespace Cell

private theorem exists_child_of_literal (cell : Cell) (member : token ∈ cell.phrase.tokens) :
    (∃ value, cell.phrase = .literal token value) ∨
      ∃ child ∈ cell.children, token ∈ child.phrase.tokens := by
  obtain ⟨base, outer, phrase⟩ := cell
  cases phrase with
  | literal written value =>
    cases List.mem_singleton.mp member
    exact .inl ⟨value, rfl⟩
  | name name => exact nomatch literal_behind denotes member rfl
  | list opening items =>
    exact .inr (items.exists_cell_of_literal denotes base (literal_behind denotes member rfl))
  | letIn opening bindings inAt body =>
    rcases List.mem_append.mp (literal_behind denotes member rfl) with bound | later
    · obtain ⟨cell, listed, inside⟩ := bindings.exists_cell_of_literal denotes base bound
      exact .inr ⟨cell, List.mem_append_left _ listed, inside⟩
    · exact .inr ⟨_, List.mem_append_right _ (List.mem_singleton_self _),
        literal_behind denotes later rfl⟩
  | function opening first more arrow body =>
    have behind := literal_behind denotes (literal_behind denotes member rfl) rfl
    rcases List.mem_append.mp behind with params | later
    · obtain ⟨name, -, rfl⟩ := List.mem_map.mp params
      cases denotes
    · exact .inr ⟨_, List.mem_singleton_self _, literal_behind denotes later rfl⟩
  | print opening operand =>
    exact .inr ⟨_, List.mem_singleton_self _, literal_behind denotes member rfl⟩
  | conditional opening condition thenAt yes elseAt no =>
    rcases List.mem_append.mp (literal_behind denotes member rfl) with first | branches
    · exact .inr ⟨_, List.mem_cons_self, first⟩
    · rcases List.mem_append.mp (literal_behind denotes branches rfl) with second | last
      · exact .inr ⟨_, List.mem_cons_of_mem _ List.mem_cons_self, second⟩
      · exact .inr ⟨_, List.mem_cons_of_mem _ (List.mem_cons_of_mem _ List.mem_cons_self),
          literal_behind denotes last rfl⟩
  | unary op opening operand =>
    have silent : Literal.value? (op.symbol.at opening).lexeme = none := by cases op <;> rfl
    exact .inr ⟨_, List.mem_singleton_self _, literal_behind denotes member silent⟩
  | group opening body closing =>
    rcases List.mem_append.mp (literal_behind denotes member rfl) with inside | closes
    · exact .inr ⟨_, List.mem_singleton_self _, inside⟩
    · exact nomatch literal_behind denotes closes rfl
  | binary left op place right =>
    rcases List.mem_append.mp member with first | behind
    · exact .inr ⟨_, List.mem_cons_self, first⟩
    · exact .inr ⟨_, List.mem_cons_of_mem _ List.mem_cons_self, literal_behind denotes behind rfl⟩
  | application callee argument =>
    rcases List.mem_append.mp member with first | second
    · exact .inr ⟨_, List.mem_cons_self, first⟩
    · exact .inr ⟨_, List.mem_cons_of_mem _ List.mem_cons_self, second⟩
  | subscript target opening index closing =>
    rcases List.mem_append.mp member with first | behind
    · exact .inr ⟨_, List.mem_cons_self, first⟩
    · rcases List.mem_append.mp (literal_behind denotes behind rfl) with second | closes
      · exact .inr ⟨_, List.mem_cons_of_mem _ List.mem_cons_self, second⟩
      · exact nomatch literal_behind denotes closes rfl

private theorem exists_literal : ∀ whole : Cell, token ∈ whole.phrase.tokens →
    ∃ part : Cell, part.Within whole ∧ ∃ value, part.phrase = .literal token value
  | whole, member => by
    rcases whole.exists_child_of_literal denotes member with ⟨value, here⟩ | ⟨child, listed, inside⟩
    · exact ⟨whole, .here, value, here⟩
    · have smaller := sizeOf_children whole child listed
      obtain ⟨part, within, found⟩ := exists_literal child inside
      exact ⟨part, .child listed within, found⟩
termination_by whole => sizeOf whole.phrase

end Cell

/-- Of a phrase that was read, every literal token denotes a value, and a node stored for the
phrase has that value and covers the token. -/
theorem Phrase.exists_literal_node {phrase : Phrase} {arena : Arena} {base : Nat}
    (grammatical : phrase.Grammatical) (inOrder : InOrder phrase.tokens)
    (holds : arena.Holds base (phrase.nodes base none)) (member : token ∈ phrase.tokens) :
    ∃ index value span, result = .ok value ∧ base ≤ index ∧
      arena.get? index = some ⟨.literal value, span⟩ ∧
      span.start ≤ token.start ∧ token.stop ≤ span.stop := by
  obtain ⟨⟨place, outer, part⟩, within, value, literal⟩ :=
    Cell.exists_literal denotes ⟨base, none, phrase⟩ member
  obtain ⟨path, filled, offset, around⟩ := within.exists_path
  have valid := within.grammatical grammatical
  have stored : Cell.StoredIn arena ⟨place, outer, part⟩ := within.storedIn holds
  change part = _ at literal
  change phrase = path.fill part at filled
  change place = base + path.offset at offset
  change outer = path.around none at around
  subst literal filled offset around
  have same : result = .ok value := Option.some.inj (denotes.symm.trans valid)
  obtain ⟨low, high⟩ := path.around_covers inOrder
  exact ⟨_, value, _, same, Nat.le_add_right .., Phrase.root_of_holds _ stored, low, high⟩

end Tokens

end ClamSyntax
