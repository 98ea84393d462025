import ClamSyntax.Proofs.Arena.Relocation
import ClamSyntax.Proofs.Parser.Relocation
import ClamSyntax.Proofs.Session.Rejection
import ClamSyntax.Proofs.Token.Tiling

/-! Layout has no influence. Of two sources with the same words either both are accepted or
both are rejected, and the answers differ in offsets only: what stands at the tokens of the
one stands at the same tokens of the other. The tokens of the second source are those of
the first one moved, and nothing that reads or stores them looks at an offset. -/

namespace ClamSyntax

/-! What it means that two answers say the same of two token lists -/

/-- The ranges run from the same token to the same token of the two lists. -/
def Span.Corresponds (first second : List Token) (span other : Span) : Prop :=
  ∃ (i j : Nat) (begins ends begins' ends' : Token),
    first[i]? = some begins ∧ first[j]? = some ends ∧ span = ⟨begins.start, ends.stop⟩ ∧
      second[i]? = some begins' ∧ second[j]? = some ends' ∧ other = ⟨begins'.start, ends'.stop⟩

/-- The form without its ranges. -/
def Form.bare (form : Form) : Form := form.rebase id fun _ => .point 0

/-- The nodes differ in their ranges only, and these correspond one by one. -/
structure Node.Corresponds (first second : List Token) (node other : Node) : Prop where
  bare : other.form.bare = node.form.bare
  ranges : List.Forall₂ (Span.Corresponds first second) (node.span :: node.form.ranges)
    (other.span :: other.form.ranges)

/-- The errors say the same of the token at the same place; the escape stands at the same
offset from the start of its string. -/
inductive SyntaxError.Corresponds (first second : List Token) : SyntaxError → SyntaxError → Prop
  | unexpected {place : Nat} {token other : Token} (expected : Expectation) :
      first[place]? = some token → second[place]? = some other →
      Corresponds first second (.unexpected expected token.kind token.span)
        (.unexpected expected other.kind other.span)
  | invalidEscape {place : Nat} {token other : Token} (offset length : Nat) (escape : Char) :
      first[place]? = some token → second[place]? = some other →
      token.kind = .quoted → other.kind = .quoted →
      Corresponds first second
        (.invalidEscape token.span
          ⟨token.start + offset, token.start + offset + length⟩ escape)
        (.invalidEscape other.span
          ⟨other.start + offset, other.start + offset + length⟩ escape)

/-- The sources are both accepted, with corresponding nodes and one root, or both rejected,
with corresponding errors. -/
def ParsedAlike (first second : List Char) : Prop :=
  match parse first, parse second with
  | .ok (arena, root), .ok (other, otherRoot) =>
    otherRoot = root ∧ other.size = arena.size ∧
      ∀ index node, arena.get? index = some node → ∃ twin, other.get? index = some twin ∧
        node.Corresponds (Lexer.tokens first) (Lexer.tokens second) twin
  | .error error, .error other =>
    error.Corresponds (Lexer.tokensToEnd first) (Lexer.tokensToEnd second) other
  | _, _ => False

/-! Moving the tokens of one list to those of another -/

private theorem exists_map_eq {keys values : List Nat} (distinct : keys.Nodup)
    (length : keys.length = values.length) : ∃ move : Nat → Nat, keys.map move = values := by
  induction keys generalizing values with
  | nil =>
    cases values with
    | nil => exact ⟨id, rfl⟩
    | cons => cases length
  | cons key keys ih =>
    cases values with
    | nil => cases length
    | cons value values =>
      obtain ⟨absent, distinct⟩ := List.nodup_cons.mp distinct
      obtain ⟨move, same⟩ := ih distinct (Nat.succ.inj length)
      refine ⟨fun number => if number = key then value else move number, ?_⟩
      rw [List.map_cons, if_pos rfl, ← same]
      refine congrArg (value :: ·) (List.map_congr_left fun number member => if_neg ?_)
      rintro rfl
      exact absent member

private theorem Token.map_injective {first second : List Token}
    (lexemes : first.map Token.lexeme = second.map Token.lexeme)
    (starts : first.map Token.start = second.map Token.start) : first = second := by
  induction first generalizing second with
  | nil => exact (List.map_eq_nil_iff.mp lexemes.symm).symm
  | cons token first ih =>
    obtain ⟨other, rest, rfl, sameLexeme, restLexemes⟩ := List.map_eq_cons_iff.mp lexemes.symm
    obtain ⟨sameStart, restStarts⟩ := List.cons.inj starts
    rw [ih restLexemes.symm restStarts]
    exact congrArg (· :: rest) (congrArg₂ Token.mk sameLexeme.symm sameStart)

private theorem exists_relocation {first second : List Token}
    (same : first.map Token.lexeme = second.map Token.lexeme) (inOrder : InOrder first) :
    ∃ starts stops, second = first.map (Token.relocate starts) ∧
      ∀ token ∈ first, token.Carried starts stops := by
  have length : first.length = second.length := by simpa using congrArg List.length same
  have distinctStarts : (first.map Token.start).Nodup := by
    refine List.pairwise_map.mpr
      (inOrder.ordered.imp_of_mem fun {earlier later} member _ before => ?_)
    have positive := inOrder.extended earlier member
    omega
  have distinctStops : (first.map Token.stop).Nodup := by
    refine List.pairwise_map.mpr
      (inOrder.ordered.imp_of_mem fun {earlier later} _ member before => ?_)
    have positive := inOrder.extended later member
    omega
  have matched (f g : Token → Nat) : (first.map f).length = (second.map g).length := by
    simpa using length
  obtain ⟨starts, startsSame⟩ := exists_map_eq distinctStarts (matched _ Token.start)
  obtain ⟨stops, stopsSame⟩ := exists_map_eq distinctStops (matched _ Token.stop)
  have moved : second = first.map (Token.relocate starts) := by
    refine Token.map_injective ?_ ?_
    · rw [List.map_map, ← same]
      rfl
    · rw [List.map_map, ← startsSame, List.map_map]
      rfl
  refine ⟨starts, stops, moved, ?_⟩
  rw [moved, List.map_map, List.map_map] at stopsSame
  exact List.map_inj_left.mp stopsSame

/-! Correspondence of what was moved -/

private theorem Form.rebase_rebase (place other : Nat → Nat) (range another : Span → Span)
    (form : Form) :
    (form.rebase place range).rebase other another =
      form.rebase (other ∘ place) (another ∘ range) := by
  cases form <;> simp [Form.rebase, LetBinding.rebase, Function.comp_def]

private theorem Form.ranges_rebase (place : Nat → Nat) (range : Span → Span) (form : Form) :
    (form.rebase place range).ranges = form.ranges.map range := by
  cases form <;> simp [Form.rebase, Form.ranges, LetBinding.rebase, Function.comp_def]

section Moved

variable {starts stops : Nat → Nat} {tokens : List Token}

private theorem Span.Spells.corresponds {span : Span} (spells : span.Spells tokens)
    (carried : ∀ token ∈ tokens, token.Carried starts stops) :
    span.Corresponds tokens (tokens.map (Token.relocate starts)) (span.transport starts stops) := by
  obtain ⟨begins, beginsHere, ends, endsHere, rfl⟩ := spells
  obtain ⟨i, atBegin⟩ := List.getElem?_of_mem beginsHere
  obtain ⟨j, atEnd⟩ := List.getElem?_of_mem endsHere
  refine ⟨i, j, begins, ends, begins.relocate starts, ends.relocate starts, atBegin, atEnd, rfl,
    ?_, ?_, ?_⟩
  · rw [List.getElem?_map, atBegin]
    rfl
  · rw [List.getElem?_map, atEnd]
    rfl
  · rw [← carried ends endsHere]
    rfl

private theorem Node.Spells.corresponds {node : Node} (spells : node.Spells tokens)
    (carried : ∀ token ∈ tokens, token.Carried starts stops) :
    node.Corresponds tokens (tokens.map (Token.relocate starts))
      (node.rebase id (Span.transport starts stops)) where
  bare := Form.rebase_rebase ..
  ranges := by
    have same : (node.rebase id (Span.transport starts stops)).form.ranges =
        node.form.ranges.map (Span.transport starts stops) := Form.ranges_rebase ..
    rw [same]
    change List.Forall₂ _ _ ((node.span :: node.form.ranges).map (Span.transport starts stops))
    rw [List.forall₂_map_right_iff, List.forall₂_same]
    exact fun span member => (spells span member).corresponds carried

/-- Every node of a phrase has a counterpart in the phrase moved. -/
theorem Phrase.stored_corresponds {phrase : Phrase} {index : Nat} {node : Node}
    (carried : ∀ token ∈ phrase.tokens, token.Carried starts stops)
    (found : phrase.stored.get? index = some node) :
    ∃ twin, (phrase.relocate starts).stored.get? index = some twin ∧
      node.Corresponds phrase.tokens (phrase.relocate starts).tokens twin := by
  rw [phrase.get?_stored] at found
  have nodes := nodes_transport 0 none carried
  have spells := phrase.nodes_spell_alone 0 (List.Subset.refl _) node (List.mem_of_getElem? found)
  refine ⟨node.rebase id (Span.transport starts stops), ?_, ?_⟩
  · rw [get?_stored, show Phrase.nodes 0 none _ = _ from nodes, List.getElem?_map, found]
    rfl
  · rw [phrase.tokens_relocate]
    exact spells.corresponds carried

private theorem Parser.Failure.corresponds {failure moved : Failure} (taken : List Token)
    (size other : Nat) (same : moved.stop = failure.stop.relocate starts)
    (explained : failure.stop.Explained) :
    (failure.error size).Corresponds (taken ++ failure.rest ++ [Token.atEnd size])
      ((taken ++ failure.rest).map (Token.relocate starts) ++ [Token.atEnd other])
      (moved.error other) := by
  have rest : moved.rest = failure.rest.map (Token.relocate starts) := congrArg Stop.rest same
  have reason : moved.reason = failure.reason := congrArg Stop.reason same
  have here : (taken ++ failure.rest ++ [Token.atEnd size])[taken.length]? =
      some (failure.found size) := by
    rw [found]
    cases failure.rest <;> simp
  have there : ((taken ++ failure.rest).map (Token.relocate starts) ++
      [Token.atEnd other])[taken.length]? = some (moved.found other) := by
    rw [found, rest]
    cases failure.rest <;> simp
  rw [error, error, reason]
  cases cause : failure.reason with
  | expected what => exact .unexpected what here there
  | badEscape fault =>
    obtain ⟨body, start, head, -⟩ := explained fault cause
    change failure.rest.head? = some _ at head
    have quoted : (failure.found size).kind = .quoted := by
      rw [found, head]
      rfl
    have quotedMoved : (moved.found other).kind = .quoted := by
      rw [found, rest, List.head?_map, head]
      rfl
    have corresponds := SyntaxError.Corresponds.invalidEscape (1 + fault.offset)
      (1 + fault.escape.utf8Size) fault.escape here there quoted quotedMoved
    simp only [← Nat.add_assoc] at corresponds
    exact corresponds

end Moved

private theorem Lexer.map_lexeme_of_words {first second : List Char}
    (same : words first = words second) :
    (tokens first).map Token.lexeme = (tokens second).map Token.lexeme := by
  rw [words_eq, words_eq] at same
  have lexemes := Lexeme.map_word_injective (lexemes_read first) (lexemes_read second) same
  exact List.append_cancel_right lexemes

/-- Sources with the same words are parsed alike. -/
theorem parsedAlike_of_words {first second : List Char}
    (same : Lexer.words first = Lexer.words second) : ParsedAlike first second := by
  obtain ⟨starts, stops, moved, carried⟩ :=
    exists_relocation (Lexer.map_lexeme_of_words same) (Lexer.tokens_inOrder first)
  rw [ParsedAlike]
  cases accepted : parse first with
  | ok result =>
    obtain ⟨phrase, spelled, grammatical, rfl⟩ := parse_eq_ok_iff.mp accepted
    have spelledMoved : (phrase.relocate starts).tokens = Lexer.tokens second := by
      rw [phrase.tokens_relocate, spelled]
      exact moved.symm
    have parsed := parse_eq_ok_iff.mpr ⟨phrase.relocate starts, spelledMoved,
      (phrase.grammatical_relocate starts).mpr grammatical, rfl⟩
    rw [parsed]
    refine ⟨phrase.preceding_relocate starts, ?_, fun index node found => ?_⟩
    · rw [Phrase.stored_size, Phrase.stored_size, phrase.preceding_relocate]
    · rw [← spelled] at carried
      rw [← spelledMoved, ← spelled]
      exact Phrase.stored_corresponds carried found
  | error error =>
    obtain ⟨failure, read, rfl⟩ := parse_eq_error_iff.mp accepted
    have stopped : Parser.readProgram (Lexer.tokens first) = .error failure.stop := by
      rw [Parser.readProgram, read]
      rfl
    obtain ⟨taken, split, -, explained, -⟩ := Parser.readProgram_stopped stopped
    change Lexer.tokens first = taken ++ failure.rest at split
    obtain ⟨failureMoved, readMoved, same⟩ := Parser.exists_failure_relocate starts read
    rw [← moved] at readMoved
    rw [parse_eq_error_iff.mpr ⟨failureMoved, readMoved, rfl⟩]
    have corresponds := failure.corresponds taken (Text.size first) (Text.size second) same
      explained
    rw [← split, ← moved] at corresponds
    exact corresponds

/-- A comment and a line break between the tokens of a sum change nothing of it. -/
theorem commented_sum_alike :
    ParsedAlike "-a + f(1)".toList "- a # minus\n+f ( 1 )".toList :=
  parsedAlike_of_words (by cbv)

end ClamSyntax
