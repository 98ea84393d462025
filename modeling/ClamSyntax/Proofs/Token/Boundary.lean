import ClamSyntax.Proofs.Phrase.Relocation
import ClamSyntax.Proofs.Token.Tiling

namespace ClamSyntax.Lexer

private theorem mark?_maximal {text after : List Char} {fixed : Symbol}
    (found : mark? text = some (fixed, after)) : ∀ c ∈ after.head?, c ∉ fixed.extensions := by
  intro c head member
  obtain ⟨rest, rfl⟩ := List.head?_eq_some_iff.mp head
  obtain rfl := mark?_lossless found
  cases fixed with
  | assign =>
    rcases List.mem_cons.mp member with rfl | member
    · cases found
    · cases List.mem_singleton.mp member
      cases found
  | binary op =>
    cases op with
    | add | lt | gt =>
      cases List.mem_singleton.mp member
      cases found
    | _ => cases member
  | _ => cases member

private theorem mark?_not_keyword {text after : List Char} {fixed : Symbol}
    (found : mark? text = some (fixed, after)) : fixed ∉ Symbol.keywords := by
  have all : ∀ fixed ∈ Symbol.marks, fixed ∉ Symbol.keywords := by decide
  obtain ⟨other, listed, fits⟩ := List.exists_of_findSome?_eq_some found
  simp only [Option.map_eq_some_iff, Prod.mk.injEq] at fits
  obtain ⟨_, _, rfl, _⟩ := fits
  exact all _ listed

private theorem head_dropWhile {p : Char → Bool} {text : List Char} {c : Char}
    (head : c ∈ (text.dropWhile p).head?) : ¬ p c = true := by
  have ends := List.head?_dropWhile_not p text
  rw [Option.mem_def.mp head] at ends
  simpa using ends

private theorem number_maximal (text : List Char) :
    ∀ c ∈ (number text).2.head?, (number text).1.Absorbs c → c = '.' := by
  unfold number
  split
  · rename_i next rest found
    split
    · exact fun c head digit => absurd digit (head_dropWhile head)
    · rintro c ⟨⟩ _
      rfl
  · exact fun c head absorbed => absorbed.resolve_left (head_dropWhile head)

private theorem word_absorbs {text : List Char} {c : Char} (absorbed : (word text).Absorbs c) :
    isWordPart c = true := by
  unfold word at absorbed
  split at absorbed
  · rename_i fixed found
    rwa [Lexeme.Absorbs, if_pos (List.mem_of_find?_eq_some found)] at absorbed
  · exact absorbed

/-- What stands behind a lexeme is not absorbed by it, unless it is a point behind digits. -/
theorem lexeme_maximal (first : Char) (rest : List Char) :
    ∀ c ∈ (lexeme first rest).2.head?, (lexeme first rest).1.Absorbs c → c = '.' := by
  unfold lexeme
  split
  · split <;> exact fun c _ absorbed => absorbed.elim
  · split
    · exact number_maximal _
    · split
      · exact fun c head absorbed => absurd (word_absorbs absorbed) (head_dropWhile head)
      · split
        · rename_i fixed after found
          intro c head absorbed
          rw [Lexeme.Absorbs, if_neg (mark?_not_keyword found)] at absorbed
          exact absurd absorbed (mark?_maximal found c head)
        · exact fun c _ absorbed => absorbed.elim

/-- A lexeme that was read is read again before any text that begins like the one behind
it, or with a break. -/
theorem lexeme_again {first : Char} {rest : List Char} (proper : (lexeme first rest).1.Proper) :
    ∃ more, rest = more ++ (lexeme first rest).2 ∧ (lexeme first rest).1.text = first :: more ∧
      (∀ offset other, skip false offset (first :: other) = (offset, first :: other)) ∧
      ∀ other, (∀ c ∈ other.head?, (c ≠ '.' ∧ c ∈ (lexeme first rest).2.head?) ∨ c ∈ breaks) →
        lexeme first (more ++ other) = ((lexeme first rest).1, other) := by
  obtain ⟨begin, more, spelled, noBlank, noHash, read⟩ := lexeme_of_proper proper
  have whole := lexeme_lossless first rest
  rw [spelled, List.cons_append] at whole
  obtain ⟨rfl, same⟩ := List.cons.inj whole
  refine ⟨more, same.symm, spelled, skip_begin noBlank noHash, fun other heads => ?_⟩
  refine read other fun c head absorbed => ?_
  rcases heads c head with ⟨noPoint, behind⟩ | ends
  · exact noPoint (lexeme_maximal begin rest c behind absorbed)
  · exact not_absorbs_break ends _ absorbed

private theorem ne_point_of_proper {first : Char} {rest : List Char}
    (proper : (lexeme first rest).1.Proper) : first ≠ '.' := by
  rintro rfl
  exact proper

/-- What was skipped is skipped before any other text. -/
theorem skip_again {inComment : Bool} {offset start : Nat} {text rest : List Char} {first : Char}
    (found : skip inComment offset text = (start, first :: rest)) :
    ∃ gap, text = gap ++ first :: rest ∧ start = offset + Text.size gap ∧
      (inComment = false → ∀ c ∈ gap.head?, c ∈ breaks) ∧
      ∀ place other, skip inComment place (gap ++ other) =
        skip false (place + Text.size gap) other := by
  fun_induction skip inComment offset text with
  | case1 => cases found
  | case2 offset c text ih =>
    obtain ⟨gap, same, place, -, again⟩ := ih found
    refine ⟨c :: gap, congrArg (c :: ·) same, ?_, by rintro ⟨⟩, fun place other => ?_⟩
    · rw [place, Text.size_cons, Nat.add_assoc]
    · rw [List.cons_append, skip, if_pos rfl, again, Text.size_cons, Nat.add_assoc]
  | case3 inComment offset c text outside blank ih =>
    obtain ⟨gap, same, place, -, again⟩ := ih found
    refine ⟨c :: gap, congrArg (c :: ·) same, ?_, ?_, fun place other => ?_⟩
    · rw [place, Text.size_cons, Nat.add_assoc]
    · rintro - c ⟨⟩
      simp only [isBlank, Bool.or_eq_true, beq_iff_eq] at blank
      rcases blank with ((rfl | rfl) | rfl) | rfl <;> decide
    · rw [List.cons_append, skip, if_neg outside, if_pos blank, again, Text.size_cons,
        Nat.add_assoc]
  | case4 inComment offset text outside noBlank ih =>
    obtain ⟨gap, same, place, -, again⟩ := ih found
    refine ⟨'#' :: gap, congrArg ('#' :: ·) same, ?_, ?_, fun place other => ?_⟩
    · rw [place, Text.size_cons, Nat.add_assoc]
    · rintro - c ⟨⟩
      decide
    · rw [List.cons_append, skip, if_neg outside, if_neg noBlank, if_pos rfl, again,
        Text.size_cons, Nat.add_assoc]
  | case5 inComment offset c text outside noBlank noHash =>
    cases found
    obtain rfl : inComment = false := Bool.eq_false_iff.mpr outside
    exact ⟨[], rfl, rfl, by rintro - _ ⟨⟩, fun place other => rfl⟩

private theorem skip_shift (distance : Nat) (inComment : Bool) (offset : Nat) (text : List Char) :
    skip inComment (distance + offset) text =
      (distance + (skip inComment offset text).1, (skip inComment offset text).2) := by
  fun_induction skip inComment offset text with
  | case1 => rfl
  | case2 offset c rest ih => rw [skip, if_pos rfl, Nat.add_assoc, ih]
  | case3 inComment offset c rest outside blank ih =>
    rw [skip, if_neg outside, if_pos blank, Nat.add_assoc, ih]
  | case4 inComment offset rest outside noBlank ih =>
    rw [skip, if_neg outside, if_neg noBlank, if_pos rfl, Nat.add_assoc, ih]
  | case5 inComment offset c rest outside noBlank noHash =>
    rw [skip, if_neg outside, if_neg noBlank, if_neg noHash]

theorem tokensFrom_shift (distance offset : Nat) (text : List Char) :
    tokensFrom [] (distance + offset) text =
      (tokensFrom [] offset text).map (Token.relocate (distance + ·)) := by
  apply tokensFrom_induction (motive := fun offset text tokens =>
    tokensFrom [] (distance + offset) text = tokens.map (Token.relocate (distance + ·))) offset text
  · intro offset start text found
    have moved := skip_shift distance false offset text
    rw [found] at moved
    exact tokensFrom_end moved []
  · intro offset start text first rest found ih
    have moved := skip_shift distance false offset text
    rw [found] at moved
    rw [tokensFrom_cons moved, Nat.add_assoc, ih]
    rfl

theorem exists_skip_of_tokens {offset : Nat} {text : List Char} {token : Token}
    {tokens : List Token} (same : tokensFrom [] offset text = token :: tokens) :
    ∃ first rest, skip false offset text = (token.start, first :: rest) ∧
      token.lexeme = (lexeme first rest).1 ∧
      tokensFrom [] token.stop (lexeme first rest).2 = tokens := by
  cases found : skip false offset text with
  | mk start remaining =>
    cases remaining with
    | nil =>
      rw [tokensFrom_end found] at same
      cases same
    | cons first rest =>
      rw [tokensFrom_cons found] at same
      cases same
      exact ⟨first, rest, rfl, rfl, rfl⟩

/-- The text up to the end of some tokens has these tokens before any text that starts with
a break, and the text behind has the others. -/
theorem exists_cut_behind {before after : List Token} {offset : Nat} {text : List Char}
    (proper : ∀ token ∈ before, token.lexeme.Proper)
    (split : tokensFrom [] offset text = before ++ after) :
    ∃ first second, text = first ++ second ∧ (∀ c ∈ first.head?, c ≠ '.') ∧
      offset + Text.size first = (before.getLast?.map Token.stop).getD offset ∧
      tokensFrom [] (offset + Text.size first) second = after ∧
      ∀ other, (∀ c ∈ other.head?, c ∈ breaks) → tokensFrom [] offset (first ++ other) =
        before ++ tokensFrom [] (offset + Text.size first) other := by
  induction before generalizing offset text with
  | nil => exact ⟨[], text, rfl, nofun, rfl, split, fun other _ => rfl⟩
  | cons token before ih =>
    obtain ⟨begin, rest, found, same, others⟩ := exists_skip_of_tokens split
    obtain ⟨properHere, properLater⟩ := List.forall_mem_cons.mp proper
    obtain ⟨gap, textSame, place, gapBreaks, skipAgain⟩ := skip_again found
    rw [same] at properHere
    obtain ⟨more, restSame, spelled, begins, readAgain⟩ := lexeme_again properHere
    obtain ⟨first, second, behind, noPoint, stop, tokensBehind, again⟩ := ih properLater others
    have size : offset + Text.size (gap ++ begin :: (more ++ first)) =
        token.stop + Text.size first := by
      rw [Token.stop, Token.text, same, spelled, place]
      simp only [Text.size_append, Text.size_cons]
      omega
    refine ⟨gap ++ begin :: (more ++ first), second, ?_, ?_, ?_, ?_, fun other ends => ?_⟩
    · rw [textSame, restSame, behind]
      simp
    · cases gap with
      | nil =>
        rintro c ⟨⟩
        exact ne_point_of_proper properHere
      | cons c gap =>
        rintro c ⟨⟩ rfl
        exact absurd (gapBreaks rfl '.' rfl) (by decide)
    · rw [size, stop, List.getLast?_cons]
      cases before.getLast? <;> rfl
    · rw [size]
      exact tokensBehind
    · have heads : ∀ c ∈ (first ++ other).head?,
          (c ≠ '.' ∧ c ∈ (lexeme begin rest).2.head?) ∨ c ∈ breaks := by
        intro c head
        cases first with
        | nil => exact .inr (ends c head)
        | cons d first =>
          rw [behind]
          exact .inl ⟨noPoint c head, head⟩
      have skipped := skipAgain offset (begin :: (more ++ (first ++ other)))
      rw [begins, ← place] at skipped
      have whole := tokensFrom_cons skipped
      rw [readAgain _ heads] at whole
      simp only [List.append_assoc, List.cons_append, size]
      rw [whole, ← again other ends, Token.stop, Token.text, same, ← same]

theorem tokensFrom_of_skip {offset place : Nat} {text other : List Char}
    (same : skip false offset text = skip false place other) :
    tokensFrom [] offset text = tokensFrom [] place other := by
  cases found : skip false place other with
  | mk start remaining =>
    rw [found] at same
    cases remaining with
    | nil => rw [tokensFrom_end found, tokensFrom_end same]
    | cons first rest => rw [tokensFrom_cons found, tokensFrom_cons same]

/-- The same for the text up to the start of a token. -/
theorem exists_cut_before {before after : List Token} {token : Token} {offset : Nat}
    {text : List Char} (proper : ∀ token ∈ before, token.lexeme.Proper)
    (split : tokensFrom [] offset text = before ++ token :: after) :
    ∃ first second, text = first ++ second ∧ token.start = offset + Text.size first ∧
      tokensFrom [] token.start second = token :: after ∧
      ∀ other, (∀ c ∈ other.head?, c ∈ breaks) →
        tokensFrom [] offset (first ++ other) = before ++ tokensFrom [] token.start other := by
  obtain ⟨first, second, same, -, -, behind, again⟩ := exists_cut_behind proper split
  obtain ⟨begin, rest, found, -⟩ := exists_skip_of_tokens behind
  obtain ⟨gap, rfl, place, gapBreaks, skipAgain⟩ := skip_again found
  have skipped (other : List Char) : tokensFrom [] (offset + Text.size first) (gap ++ other) =
      tokensFrom [] token.start other := by
    rw [place]
    exact tokensFrom_of_skip (skipAgain _ other)
  refine ⟨first ++ gap, begin :: rest, ?_, ?_, ?_, fun other ends => ?_⟩
  · rw [same, List.append_assoc]
  · rw [place, Text.size_append, Nat.add_assoc]
  · rw [← skipped, behind]
  · rw [List.append_assoc, again (gap ++ other) ?_, skipped]
    cases gap with
    | nil => exact ends
    | cons c gap => exact gapBreaks rfl

private theorem tokensFrom_leftParen (offset : Nat) (text : List Char) :
    tokensFrom [] offset ('(' :: text) =
      Symbol.leftParen.at offset :: tokensFrom [] (1 + offset) text := by
  have here : skip false offset ('(' :: text) = (offset, '(' :: text) := rfl
  rw [Nat.add_comm 1]
  exact tokensFrom_cons here

private theorem tokensFrom_rightParen (offset : Nat) (text : List Char) :
    tokensFrom [] offset (')' :: text) =
      Symbol.rightParen.at offset :: tokensFrom [] (1 + offset) text := by
  have here : skip false offset (')' :: text) = (offset, ')' :: text) := rfl
  rw [Nat.add_comm 1]
  exact tokensFrom_cons here

/-- A run of tokens stands in a part of the source that has these tokens alone, and in
parentheses they stay what they are. -/
theorem exists_excerpt {source : List Char} {before inner after : List Token} {first last : Token}
    (split : tokens source = before ++ inner ++ after)
    (proper : ∀ token ∈ before ++ inner, token.lexeme.Proper)
    (head : first ∈ inner.head?) (final : last ∈ inner.getLast?) :
    ∃ front part back, source = front ++ part ++ back ∧ first.start = Text.size front ∧
      last.stop = Text.size front + Text.size part ∧
      (tokens part).map (Token.relocate (first.start + ·)) = inner ∧
      tokens (front ++ '(' :: (part ++ ')' :: back)) =
        before ++ Symbol.leftParen.at first.start :: (inner.map (Token.relocate (1 + ·)) ++
          Symbol.rightParen.at (last.stop + 1) :: after.map (Token.relocate (2 + ·))) := by
  obtain ⟨properBefore, properInner⟩ := List.forall_mem_append.mp proper
  obtain ⟨others, rfl⟩ := List.head?_eq_some_iff.mp head
  rw [List.append_assoc] at split
  obtain ⟨front, rest, rfl, start, startsHere, frontAgain⟩ := exists_cut_before properBefore split
  change tokensFrom [] first.start rest = (first :: others) ++ after at startsHere
  obtain ⟨part, back, rfl, -, stop, behind, partAgain⟩ := exists_cut_behind properInner startsHere
  rw [Option.mem_def.mp final, Option.map_some, Option.getD_some] at stop
  rw [Nat.zero_add] at start
  have alone := partAgain [] nofun
  have nothing : tokensFrom [] (first.start + Text.size part) [] = [] := tokensFrom_end rfl []
  rw [List.append_nil, nothing, List.append_nil] at alone
  refine ⟨front, part, back, (List.append_assoc ..).symm, start, ?_, ?_, ?_⟩
  · rw [← start, stop]
  · rw [tokens, ← tokensFrom_shift, Nat.add_zero, alone]
  · have opens : ∀ c ∈ ('(' :: (part ++ ')' :: back)).head?, c ∈ breaks := by
      rintro c ⟨⟩
      decide
    have closes : ∀ c ∈ (')' :: back).head?, c ∈ breaks := by
      rintro c ⟨⟩
      decide
    have twice : Token.relocate (1 + ·) ∘ Token.relocate (1 + ·) = Token.relocate (2 + ·) := by
      funext token
      exact congrArg (Token.mk token.lexeme) (Nat.add_assoc 1 1 token.start).symm
    rw [tokens, frontAgain _ opens, tokensFrom_leftParen, tokensFrom_shift, partAgain _ closes,
      stop, tokensFrom_rightParen, tokensFrom_shift, ← stop, behind, stop,
      Nat.add_comm last.stop, ← twice, ← List.map_map, List.map_append]
    rfl

end ClamSyntax.Lexer
