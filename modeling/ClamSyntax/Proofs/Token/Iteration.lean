import ClamSyntax.Proofs.Token.Tiling
import ClamSyntax.Token.Cursor

namespace ClamSyntax.Cursor

/-- Asked again and again, the cursor yields the tokens in this order and then nothing. -/
inductive Yields : Cursor → List Token → Prop
  | done {cursor : Cursor} : cursor.yield?.1 = none → Yields cursor []
  | more {cursor : Cursor} {token : Token} {tokens : List Token} :
      cursor.yield?.1 = some token → Yields cursor.yield?.2 tokens → Yields cursor (token :: tokens)

theorem Yields.unique {cursor : Cursor} {tokens others : List Token}
    (first : cursor.Yields tokens) (second : cursor.Yields others) : tokens = others := by
  induction first generalizing others with
  | done ended =>
    cases second with
    | done => rfl
    | more yielded _ => cases ended.symm.trans yielded
  | more yielded _ ih =>
    cases second with
    | done ended => cases ended.symm.trans yielded
    | more again rest =>
      cases yielded.symm.trans again
      rw [ih rest]

private theorem yields_nil (offset : Nat) (text : List Char) (held : Option Token) :
    (Cursor.mk offset text held true).Yields [] :=
  .done rfl

variable {offset start : Nat} {text : List Char}

private theorem yields_end (found : Lexer.skip false offset text = (start, [])) :
    (Cursor.mk offset text none false).Yields [Token.atEnd start] := by
  have step : (Cursor.mk offset text none false).yield? =
      (some (Token.atEnd start), ⟨(Token.atEnd start).stop, [], none, true⟩) := by
    simp only [yield?, take, Lexer.next, found]
    rfl
  refine .more (by rw [step]) ?_
  rw [step]
  exact yields_nil ..

private theorem yields_cons {first : Char} {rest : List Char} {tokens : List Token}
    (found : Lexer.skip false offset text = (start, first :: rest))
    (behind : (Cursor.mk (start + Text.size (Lexer.lexeme first rest).1.text)
      (Lexer.lexeme first rest).2 none false).Yields tokens) :
    (Cursor.mk offset text none false).Yields
      (⟨(Lexer.lexeme first rest).1, start⟩ :: tokens) := by
  have going : ((Lexer.lexeme first rest).1 == .endOfInput) = false := by
    have read := Lexer.lexeme_proper first rest
    exact beq_eq_false_iff_ne.mpr fun last =>
      Lexer.kind_ne_endOfInput read (congrArg Lexeme.kind last)
  have step : (Cursor.mk offset text none false).yield? =
      (some ⟨(Lexer.lexeme first rest).1, start⟩,
        ⟨start + Text.size (Lexer.lexeme first rest).1.text, (Lexer.lexeme first rest).2, none,
          false⟩) := by
    simp only [yield?, take, Lexer.next, found, going]
    rfl
  refine .more (by rw [step]) ?_
  rw [step]
  exact behind

private theorem yields_tokensFrom (offset : Nat) (text : List Char) :
    (Cursor.mk offset text none false).Yields
      (Lexer.tokensFrom [] offset text ++ [Token.atEnd (offset + Text.size text)]) := by
  apply Lexer.tokensFrom_induction (motive := fun offset text tokens =>
    (Cursor.mk offset text none false).Yields
      (tokens ++ [Token.atEnd (offset + Text.size text)])) offset text
  · intro offset start text found
    rw [List.nil_append, ← (Lexer.skip_to_end found).2]
    exact yields_end found
  · intro offset start text first rest found ih
    obtain ⟨gap, same, place, -⟩ := Lexer.skip_to_lexeme found
    have sizes : start + Text.size (Lexer.lexeme first rest).1.text +
        Text.size (Lexer.lexeme first rest).2 = offset + Text.size text := by
      rw [same, ← Lexer.lexeme_lossless first rest, Text.size_append, Text.size_append, place]
      omega
    rw [sizes] at ih
    exact yields_cons found ih

/-- The tokens that iteration yields before the one end of the source are parts of the source
one behind the other, and all else in the source is blanks and comments between them. -/
theorem yields_tiling (source : List Char) : ∃ tokens last,
    (∀ yielded, (ofSource source).Yields yielded ↔ yielded = tokens ++ [last]) ∧
      last.kind = .endOfInput ∧ last.span = .point (Text.size source) ∧
      (∀ token ∈ tokens, token.kind ≠ .endOfInput ∧ token.span.Marks source token.text) ∧
      (tokens ++ [last]).Pairwise (fun earlier later => earlier.stop ≤ later.start) ∧
      Lexer.Tiles 0 source tokens := by
  have yielded := yields_tokensFrom 0 source
  rw [Nat.zero_add] at yielded
  have tiles := Lexer.tokensFrom_tiles 0 source
  refine ⟨Lexer.tokens source, Token.atEnd (Text.size source), ?_, rfl, rfl, ?_, ?_, tiles⟩
  · intro others
    constructor
    · intro again
      exact again.unique yielded
    · rintro rfl
      exact yielded
  · intro token member
    constructor
    · exact Lexer.kind_ne_endOfInput (Lexer.tokens_proper source token member)
    · exact tiles.marks token member
  · refine List.pairwise_append.mpr ⟨tiles.inOrder.ordered, List.pairwise_singleton .., ?_⟩
    intro token member last ends
    rw [List.mem_singleton.mp ends]
    exact (tiles.marks token member).stop_le

end ClamSyntax.Cursor
