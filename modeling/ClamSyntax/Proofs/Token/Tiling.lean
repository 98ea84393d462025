import ClamSyntax.Proofs.Token.Spelling

namespace ClamSyntax

/-- The range is that of a part of the source, of one character at least. -/
def Span.Marks (source part : List Char) (span : Span) : Prop :=
  part ≠ [] ∧ ∃ before after, source = before ++ part ++ after ∧
    span = ⟨Text.size before, Text.size before + Text.size part⟩

theorem Span.Marks.stop_le {source part : List Char} {span : Span}
    (marks : span.Marks source part) : span.stop ≤ Text.size source := by
  obtain ⟨-, before, after, rfl, rfl⟩ := marks
  rw [Text.size_append, Text.size_append]
  exact Nat.le_add_right ..

theorem Span.Marks.slice {source part : List Char} {span : Span} (marks : span.Marks source part) :
    Text.slice? source span = some part := by
  obtain ⟨-, before, after, rfl, rfl⟩ := marks
  exact Text.slice?_append before part after

/-- The tokens stand one behind the other, and none is empty. -/
structure InOrder (tokens : List Token) : Prop where
  ordered : tokens.Pairwise fun earlier later => earlier.stop ≤ later.start
  extended : ∀ token ∈ tokens, token.start < token.stop

namespace InOrder

variable {tokens others : List Token}

theorem sublist (inOrder : InOrder tokens) (part : others.Sublist tokens) : InOrder others where
  ordered := inOrder.ordered.sublist part
  extended token member := inOrder.extended token (part.subset member)

theorem start_lt {before after : List Token} {token : Token}
    (inOrder : InOrder (before ++ token :: after)) :
    ∀ other ∈ before, other.start < token.start := by
  intro other member
  have positive := inOrder.extended other (List.mem_append_left _ member)
  have place := (List.pairwise_append.mp inOrder.ordered).2.2 other member token List.mem_cons_self
  omega

end InOrder

end ClamSyntax

namespace ClamSyntax.Lexer

/-- Blanks and comments before the rest of a text. A comment runs from `#` up to a newline or
to the end of the text. -/
inductive Gap (rest : List Char) : List Char → Prop
  | empty : Gap rest []
  | blank {c : Char} {gap : List Char} : isBlank c = true → Gap rest gap → Gap rest (c :: gap)
  | comment {body gap : List Char} : (∀ c ∈ body, c ≠ '\n') →
      (∀ c ∈ (gap ++ rest).head?, c = '\n') → Gap rest gap → Gap rest ('#' :: (body ++ gap))

private theorem Gap.comment_end {rest gap : List Char} (ends : ∀ c ∈ (gap ++ rest).head?, c = '\n')
    (behind : Gap rest gap) : Gap rest ('#' :: gap) := by
  have inLine : ∀ c ∈ ([] : List Char), c ≠ '\n' := List.forall_mem_nil _
  exact .comment inLine ends behind

private theorem Gap.comment_cons {rest gap : List Char} {c : Char} (begun : Gap rest ('#' :: gap))
    (inside : c ≠ '\n') : Gap rest ('#' :: c :: gap) := by
  cases begun with
  | blank hash => cases hash
  | comment inLine ends behind =>
    exact .comment (List.forall_mem_cons.mpr ⟨inside, inLine⟩) ends behind

/-- What is skipped is the text between the two offsets, and it is blanks and comments. -/
theorem skip_gap (inComment : Bool) (offset : Nat) (text : List Char) :
    ∃ gap, text = gap ++ (skip inComment offset text).2 ∧
      (skip inComment offset text).1 = offset + Text.size gap ∧
      Gap (skip inComment offset text).2 (if inComment then '#' :: gap else gap) := by
  fun_induction skip inComment offset text with
  | case1 inComment offset =>
    refine ⟨[], rfl, rfl, ?_⟩
    cases inComment with
    | false => exact .empty
    | true => exact .comment_end (fun c member => absurd member (Option.not_mem_none c)) .empty
  | case2 offset c rest ih =>
    obtain ⟨gap, same, place, separates⟩ := ih
    refine ⟨c :: gap, congrArg (c :: ·) same, by rw [place, Text.size_cons, Nat.add_assoc], ?_⟩
    by_cases newline : c = '\n'
    · subst newline
      exact .comment_end (by rintro c ⟨⟩; rfl) (.blank rfl separates)
    · rw [bne_iff_ne.mpr newline] at separates ⊢
      exact separates.comment_cons newline
  | case3 inComment offset c rest outside blank ih =>
    obtain ⟨gap, same, place, separates⟩ := ih
    refine ⟨c :: gap, congrArg (c :: ·) same, by rw [place, Text.size_cons, Nat.add_assoc], ?_⟩
    rw [if_neg outside]
    exact .blank blank separates
  | case4 inComment offset rest outside _ ih =>
    obtain ⟨gap, same, place, separates⟩ := ih
    refine ⟨'#' :: gap, congrArg ('#' :: ·) same, by rw [place, Text.size_cons, Nat.add_assoc], ?_⟩
    rw [if_neg outside]
    exact separates
  | case5 inComment offset c rest outside =>
    refine ⟨[], rfl, rfl, ?_⟩
    rw [if_neg outside]
    exact .empty

section Skipped

variable {offset start : Nat} {text rest : List Char} {first : Char}

theorem skip_to_end (found : skip false offset text = (start, [])) :
    Gap [] text ∧ start = offset + Text.size text := by
  obtain ⟨gap, same, place, separates⟩ := skip_gap false offset text
  rw [found, List.append_nil] at same
  rw [found] at place separates
  rw [same]
  exact ⟨separates, place⟩

theorem skip_to_lexeme (found : skip false offset text = (start, first :: rest)) :
    ∃ gap, text = gap ++ first :: rest ∧ start = offset + Text.size gap ∧
      Gap (first :: rest) gap := by
  obtain ⟨gap, same, place, separates⟩ := skip_gap false offset text
  rw [found] at same place separates
  exact ⟨gap, same, place, separates⟩

end Skipped

/-- Where a token stands its lexeme is read. -/
theorem tokensFrom_read (offset : Nat) (text : List Char) : ∀ token ∈ tokensFrom [] offset text,
    ∃ before first rest, text = before ++ first :: rest ∧
      token.start = offset + Text.size before ∧ token.lexeme = (lexeme first rest).1 := by
  apply tokensFrom_induction (motive := fun offset text tokens => ∀ token ∈ tokens,
    ∃ before first rest, text = before ++ first :: rest ∧
      token.start = offset + Text.size before ∧ token.lexeme = (lexeme first rest).1) offset text
  · intro offset start text found token member
    cases member
  · intro offset start text first rest found ih token member
    obtain ⟨gap, same, place, -⟩ := skip_to_lexeme found
    rcases List.mem_cons.mp member with rfl | later
    · exact ⟨gap, first, rest, same, place, rfl⟩
    · obtain ⟨before, next, more, here, at_, read⟩ := ih token later
      refine ⟨gap ++ (lexeme first rest).1.text ++ before, next, more, ?_, ?_, read⟩
      · rw [same, ← lexeme_lossless first rest, here]
        simp only [List.append_assoc]
      · rw [at_, place, Text.size_append, Text.size_append]
        omega

/-- The token stands at its place in a text that begins at the given offset. -/
def StandsIn (offset : Nat) (text : List Char) (token : Token) : Prop :=
  ∃ before after, text = before ++ token.text ++ after ∧ token.start = offset + Text.size before

/-- The tokens of a text that begins at the offset. Each has a text of its own behind blanks and
comments, and behind the last one there is nothing else. -/
inductive Tiles : Nat → List Char → List Token → Prop
  | done {offset : Nat} {gap : List Char} : Gap [] gap → Tiles offset gap []
  | token {offset : Nat} {gap rest : List Char} {token : Token} {tokens : List Token} :
      Gap (token.text ++ rest) gap → token.text ≠ [] → token.start = offset + Text.size gap →
        Tiles token.stop rest tokens → Tiles offset (gap ++ token.text ++ rest) (token :: tokens)

namespace Tiles

variable {offset : Nat} {text : List Char} {tokens : List Token}

theorem stand (tiles : Tiles offset text tokens) :
    ∀ token ∈ tokens, StandsIn offset text token := by
  induction tiles with
  | done => exact List.forall_mem_nil _
  | @token offset gap rest token tokens _ _ place _ ih =>
    refine List.forall_mem_cons.mpr ⟨⟨gap, rest, rfl, place⟩, fun later member => ?_⟩
    obtain ⟨before, after, here, at_⟩ := ih later member
    refine ⟨gap ++ token.text ++ before, after, ?_, ?_⟩
    · rw [here]
      simp only [List.append_assoc]
    · rw [at_, Token.stop, place, Text.size_append, Text.size_append]
      omega

theorem text_ne_nil (tiles : Tiles offset text tokens) : ∀ token ∈ tokens, token.text ≠ [] := by
  induction tiles with
  | done => exact List.forall_mem_nil _
  | token _ present _ _ ih => exact List.forall_mem_cons.mpr ⟨present, ih⟩

/-- The tokens of a text stand in it from left to right, and every one takes some of it. -/
theorem inOrder (tiles : Tiles offset text tokens) : InOrder tokens where
  ordered := by
    induction tiles with
    | done => exact .nil
    | token _ _ _ behind ih =>
      refine .cons (fun later member => ?_) ih
      obtain ⟨before, _, _, place⟩ := behind.stand later member
      rw [place]
      exact Nat.le_add_right ..
  extended token member :=
    Nat.lt_add_of_pos_right (Text.size_pos_of_ne_nil (tiles.text_ne_nil token member))

/-- The tokens of a whole source have ranges in it. -/
theorem marks (tiles : Tiles 0 text tokens) :
    ∀ token ∈ tokens, token.span.Marks text token.text := by
  intro token member
  obtain ⟨before, after, same, place⟩ := tiles.stand token member
  rw [Nat.zero_add] at place
  refine ⟨tiles.text_ne_nil token member, before, after, same, ?_⟩
  rw [Token.span, Token.stop, place]

end Tiles

theorem tokensFrom_tiles (offset : Nat) (text : List Char) :
    Tiles offset text (tokensFrom [] offset text) := by
  apply tokensFrom_induction (motive := Tiles) offset text
  · intro offset start text found
    exact .done (skip_to_end found).1
  · intro offset start text first rest found ih
    obtain ⟨gap, same, place, separates⟩ := skip_to_lexeme found
    let token : Token := ⟨(lexeme first rest).1, start⟩
    have split : token.text ++ (lexeme first rest).2 = first :: rest := lexeme_lossless first rest
    rw [same, ← split, ← List.append_assoc]
    rw [← split] at separates
    have present : token.text ≠ [] := lexeme_text_ne_nil first rest
    exact .token separates present place ih

theorem tokensFrom_stand (offset : Nat) (text : List Char) :
    ∀ token ∈ tokensFrom [] offset text, StandsIn offset text token :=
  (tokensFrom_tiles offset text).stand

theorem tokensFrom_ordered (offset : Nat) (text : List Char) :
    (tokensFrom [] offset text).Pairwise (fun earlier later => earlier.stop ≤ later.start) :=
  (tokensFrom_tiles offset text).inOrder.ordered

theorem tokens_inOrder (source : List Char) : InOrder (tokens source) :=
  (tokensFrom_tiles 0 source).inOrder

end ClamSyntax.Lexer
