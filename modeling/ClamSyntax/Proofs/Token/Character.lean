import ClamSyntax.Proofs.Token.Tiling

/-! Where a character of the source stands. If it is neither blank nor the beginning of a comment,
it belongs to a token or to a comment. A minus belongs to a token in two ways only: as the whole of
it, or as one of the characters between the quotes of a string. -/

namespace ClamSyntax

namespace Lexer

theorem split_before {first second before after : List α} {x : α}
    (same : first ++ second = before ++ x :: after) :
    (∃ more, first = before ++ x :: more) ∨
      ∃ more, before = first ++ more ∧ second = more ++ x :: after := by
  rcases List.append_eq_append_iff.mp same with ⟨more, ahead, rest⟩ | ⟨more, ahead, rest⟩
  · exact .inr ⟨more, ahead, rest⟩
  · cases more with
    | nil => exact .inr ⟨[], by rw [ahead, List.append_nil, List.append_nil], rest.symm⟩
    | cons y more =>
      obtain ⟨rfl, -⟩ := List.cons.inj rest
      exact .inl ⟨more, ahead⟩

/-- In front of what is visible in a gap stands a hash on the same line. -/
theorem Gap.exists_hash {rest gap : List Char} (skipped : Gap rest gap) :
    ∀ {before after : List Char} {c : Char}, gap = before ++ c :: after → isBlank c = false →
      c ≠ '#' → ∃ front line, before = front ++ '#' :: line ∧ ∀ other ∈ line, other ≠ '\n' := by
  induction skipped with
  | empty =>
    intro before after c split
    cases before <;> cases split
  | @blank b gap blank _ ih =>
    intro before after c split visible noHash
    cases before with
    | nil =>
      obtain ⟨rfl, -⟩ := List.cons.inj split
      cases visible.symm.trans blank
    | cons first before =>
      obtain ⟨rfl, later⟩ := List.cons.inj split
      obtain ⟨front, line, rfl, onLine⟩ := ih later visible noHash
      exact ⟨b :: front, line, rfl, onLine⟩
  | @comment body gap inLine _ _ ih =>
    intro before after c split visible noHash
    cases before with
    | nil =>
      obtain ⟨rfl, -⟩ := List.cons.inj split
      exact absurd rfl noHash
    | cons first before =>
      obtain ⟨rfl, later⟩ := List.cons.inj split
      rcases split_before later with ⟨more, rfl⟩ | ⟨more, rfl, behind⟩
      · exact ⟨[], before, rfl, fun other member => inLine other (List.mem_append_left _ member)⟩
      · obtain ⟨front, line, rfl, onLine⟩ := ih behind visible noHash
        exact ⟨'#' :: (body ++ front), line, by simp, onLine⟩

/-- The character at the place is one of the token's. -/
def Holds (token : Token) (place : Nat) (c : Char) : Prop :=
  ∃ front back, token.text = front ++ c :: back ∧ place = token.start + Text.size front

/-- What follows the text, which begins at the offset, stands in a comment that no token reaches
into. -/
def Commented (tokens : List Token) (offset : Nat) (before : List Char) : Prop :=
  ∃ front line, before = front ++ '#' :: line ∧ (∀ c ∈ line, c ≠ '\n') ∧
    ∀ token ∈ tokens, token.stop ≤ offset + Text.size front ∨
      offset + Text.size before < token.start

/-- What is visible in a source is part of a token or of a comment. -/
theorem Tiles.holds_or_commented {offset : Nat} {text : List Char} {tokens : List Token}
    (tiles : Tiles offset text tokens) : ∀ {before after : List Char} {c : Char},
      text = before ++ c :: after → isBlank c = false → c ≠ '#' →
        (∃ token ∈ tokens, Holds token (offset + Text.size before) c) ∨
          Commented tokens offset before := by
  induction tiles with
  | done skipped =>
    intro before after c split visible noHash
    obtain ⟨front, line, same, onLine⟩ := skipped.exists_hash split visible noHash
    exact .inr ⟨front, line, same, onLine, List.forall_mem_nil _⟩
  | @token offset gap rest token tokens skipped _ place behind ih =>
    intro before after c split visible noHash
    rw [List.append_assoc] at split
    rcases split_before split with ⟨more, ahead⟩ | ⟨inner, rfl, later⟩
    · -- in the gap, which ends where the token starts
      obtain ⟨front, line, same, onLine⟩ := skipped.exists_hash ahead visible noHash
      have extended : Text.size before < Text.size gap := by
        have positive := Text.size_pos_of_ne_nil (List.cons_ne_nil c more)
        rw [ahead, Text.size_append]
        omega
      refine .inr ⟨front, line, same, onLine, List.forall_mem_cons.mpr ⟨?_, ?_⟩⟩
      · exact .inr (by omega)
      · intro other member
        obtain ⟨_, _, _, start⟩ := behind.stand other member
        rw [Token.stop] at start
        exact .inr (by omega)
    · have size : offset + Text.size (gap ++ inner) = token.start + Text.size inner := by
        rw [Text.size_append, place, Nat.add_assoc]
      rcases split_before later with ⟨more, here⟩ | ⟨outer, rfl, last⟩
      · exact .inl ⟨token, List.mem_cons_self, inner, more, here, size⟩
      · have stop : offset + Text.size (gap ++ (token.text ++ outer)) =
            token.stop + Text.size outer := by
          rw [size, Text.size_append, ← Nat.add_assoc]
          rfl
        rw [stop]
        rcases ih last visible noHash with
          ⟨other, member, holds⟩ | ⟨front, line, rfl, onLine, apart⟩
        · exact .inl ⟨other, List.mem_cons_of_mem _ member, holds⟩
        · refine .inr ⟨gap ++ (token.text ++ front), line, by simp, onLine, ?_⟩
          have size : offset + Text.size (gap ++ (token.text ++ front)) =
              token.stop + Text.size front := by
            rw [Text.size_append, Text.size_append, Token.stop, place]
            omega
          rw [size, stop]
          exact List.forall_mem_cons.mpr ⟨.inl (Nat.le_add_right ..), apart⟩

end Lexer

/-! The minus -/

private theorem Symbol.minus_of_mem {fixed : Symbol} (member : '-' ∈ fixed.spelling.toList) :
    fixed = .binary .sub := by
  cases fixed with
  | binary op => cases op <;> first | rfl | exact absurd member (by decide)
  | _ => exact absurd member (by decide)

/-- A minus in a lexeme is all of it, unless the lexeme is a string with the minus between the
quotes. -/
theorem Lexeme.minus_of_text {lexeme : Lexeme} {front back : List Char} (proper : lexeme.Proper)
    (split : lexeme.text = front ++ '-' :: back) :
    (lexeme = .symbol (.binary .sub) ∧ front = []) ∨
      (lexeme.kind = .quoted ∧ front ≠ [] ∧ back ≠ []) := by
  have member : '-' ∈ lexeme.text := by
    rw [split]
    exact List.mem_append_right _ List.mem_cons_self
  cases lexeme with
  | symbol fixed =>
    cases Symbol.minus_of_mem member
    have lengths := congrArg List.length split
    rw [List.length_append, List.length_cons] at lengths
    change 1 = _ at lengths
    exact .inl ⟨rfl, List.eq_nil_of_length_eq_zero (by omega)⟩
  | integer digits => exact absurd (proper.2 '-' member) (by decide)
  | decimal whole fraction =>
    rcases List.mem_append.mp member with inWhole | behind
    · exact absurd (proper.1.2 '-' inWhole) (by decide)
    · rcases List.mem_cons.mp behind with point | inFraction
      · exact absurd point (by decide)
      · exact absurd (proper.2.2 '-' inFraction) (by decide)
  | identifier name => exact absurd (proper.2.1 '-' member) (by decide)
  | quoted body =>
    refine .inr ⟨rfl, ?_, ?_⟩
    · rintro rfl
      cases split
    · rintro rfl
      have last := congrArg List.getLast? split
      rw [Lexeme.text, ← List.cons_append, List.getLast?_concat, List.getLast?_concat] at last
      cases last
  | invalid text => exact proper.elim
  | endOfInput => exact proper.elim

end ClamSyntax
