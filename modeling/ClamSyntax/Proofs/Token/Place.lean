import ClamSyntax.Proofs.Token.Tiling
import ClamSyntax.Token.Cursor

/-! Reading in any order. However looking, taking and iterating are mixed, a cursor answers as a
place in the sequence of the source's tokens does: a token that was looked at is neither lost nor
read twice. -/

namespace ClamSyntax

/-- The token of that number in a text that begins at the offset; behind the last one the end of
the text stands for ever. -/
def Lexer.tokenFrom (offset : Nat) (text : List Char) (index : Nat) : Token :=
  (Lexer.tokensFrom [] offset text)[index]?.getD (Token.atEnd (offset + Text.size text))

/-- The token of that number in a source. -/
def Lexer.tokenAt (source : List Char) (index : Nat) : Token :=
  (Lexer.tokens source)[index]?.getD (Token.atEnd (Text.size source))

namespace Lexer

theorem tokenFrom_zero (source : List Char) : tokenFrom 0 source = tokenAt source := by
  funext index
  rw [tokenFrom, Nat.zero_add]
  rfl

variable {offset start : Nat} {text rest : List Char} {first : Char}

private theorem tokenFrom_end (found : skip false offset text = (start, [])) (index : Nat) :
    tokenFrom offset text index = Token.atEnd start := by
  rw [tokenFrom, tokensFrom_end found, (skip_to_end found).2]
  rfl

private theorem end_of_lexeme (found : skip false offset text = (start, first :: rest)) :
    start + Text.size (lexeme first rest).1.text + Text.size (lexeme first rest).2 =
      offset + Text.size text := by
  obtain ⟨gap, same, place, -⟩ := skip_to_lexeme found
  rw [same, ← lexeme_lossless first rest, Text.size_append, Text.size_append, place]
  omega

/-- Reading a token hands out the first one and leaves the others. -/
theorem next_tokenFrom (offset : Nat) (text : List Char) :
    (next offset text).1 = tokenFrom offset text 0 ∧
      ∀ index, tokenFrom (next offset text).1.stop (next offset text).2 index =
        tokenFrom offset text (index + 1) := by
  match found : skip false offset text with
  | (start, []) =>
    have same : next offset text = (Token.atEnd start, []) := by rw [next, found]
    have after : skip false (Token.atEnd start).stop [] = (start, []) := rfl
    rw [same]
    refine ⟨(tokenFrom_end found 0).symm, fun index => ?_⟩
    rw [tokenFrom_end found, tokenFrom_end after]
  | (start, first :: rest) =>
    have same : next offset text =
        (⟨(lexeme first rest).1, start⟩, (lexeme first rest).2) := by rw [next, found]
    rw [same]
    refine ⟨?_, fun index => ?_⟩
    · rw [tokenFrom, tokensFrom_cons found]
      rfl
    · rw [tokenFrom, tokenFrom, tokensFrom_cons found, ← end_of_lexeme found]
      rfl

end Lexer

namespace Cursor

/-- The ways to read a cursor. -/
inductive Call where
  | look | take | yield
  deriving DecidableEq

/-- The answer to a call, and the cursor afterwards. -/
def answer (cursor : Cursor) : Call → Option Token × Cursor
  | .look => (some cursor.look.1, cursor.look.2)
  | .take => (some cursor.take.1, cursor.take.2)
  | .yield => cursor.yield?

/-- A place in a sequence of tokens: the number of the next one, and whether iteration has
handed out the end. -/
structure Place where
  index : Nat
  finished : Bool

/-- How a place answers that numbers the tokens of a sequence. -/
def Place.answer (token : Nat → Token) (place : Place) : Call → Option Token × Place
  | .look => (some (token place.index), place)
  | .take => (some (token place.index), { place with index := place.index + 1 })
  | .yield =>
    if place.finished then (none, place)
    else
      (some (token place.index),
        ⟨place.index + 1, decide ((token place.index).kind = .endOfInput)⟩)

section Replies

variable {State : Type} (answer : State → Call → Option Token × State)

/-- The replies to calls that are answered one after the other. -/
def Call.replies (state : State) : List Call → List (Option Token)
  | [] => []
  | call :: calls => (answer state call).1 :: replies (answer state call).2 calls

/-- The tokens that the calls hand out; a look hands out nothing. -/
def Call.taken (state : State) : List Call → List Token
  | [] => []
  | call :: calls =>
    (if call = .look then [] else (answer state call).1.toList) ++ taken (answer state call).2 calls

end Replies

/-- The tokens still to come, by number. -/
def coming (cursor : Cursor) (index : Nat) : Token :=
  match cursor.held, index with
  | none, index => Lexer.tokenFrom cursor.offset cursor.text index
  | some token, 0 => token
  | some _, index + 1 => Lexer.tokenFrom cursor.offset cursor.text index

theorem take_coming (cursor : Cursor) :
    cursor.take.1 = cursor.coming 0 ∧
      ∀ index, cursor.take.2.coming index = cursor.coming (index + 1) := by
  match cursor with
  | ⟨offset, text, some token, _⟩ => exact ⟨rfl, fun _ => rfl⟩
  | ⟨offset, text, none, _⟩ => exact Lexer.next_tokenFrom offset text

private theorem take_yieldedEnd (cursor : Cursor) :
    cursor.take.2.yieldedEnd = cursor.yieldedEnd := by
  match cursor with
  | ⟨offset, text, some token, _⟩ => rfl
  | ⟨offset, text, none, _⟩ => rfl

/-- A look does not change what is to come. -/
theorem look_coming (cursor : Cursor) (index : Nat) :
    cursor.look.2.coming index = cursor.coming index := by
  cases index with
  | zero => exact cursor.take_coming.1
  | succ index =>
    match cursor with
    | ⟨offset, text, some token, _⟩ => rfl
    | ⟨offset, text, none, _⟩ => exact (Lexer.next_tokenFrom offset text).2 index

/-- The cursor has come to the place: the tokens from there on are still to come. -/
structure At (token : Nat → Token) (cursor : Cursor) (place : Place) : Prop where
  coming : ∀ index, cursor.coming index = token (place.index + index)
  finished : cursor.yieldedEnd = place.finished

variable {token : Nat → Token} {cursor : Cursor} {place : Place}

private theorem At.take (stands : cursor.At token place) :
    cursor.take.1 = token place.index ∧
      ∀ index, cursor.take.2.coming index = token (place.index + 1 + index) := by
  refine ⟨cursor.take_coming.1.trans (stands.coming 0), fun index => ?_⟩
  rw [cursor.take_coming.2, stands.coming, Nat.add_right_comm, Nat.add_assoc]

private theorem isEnd_eq (token : Token) :
    (token.lexeme == .endOfInput) = decide (token.kind = .endOfInput) := by
  obtain ⟨lexeme, start⟩ := token
  cases lexeme <;> rfl

/-- A cursor answers a call as its place does, and comes to the same place. -/
theorem At.answer (stands : cursor.At token place) (call : Call) :
    (cursor.answer call).1 = (place.answer token call).1 ∧
      (cursor.answer call).2.At token (place.answer token call).2 := by
  obtain ⟨first, others⟩ := stands.take
  cases call with
  | look =>
    refine ⟨congrArg some first, fun index => ?_, ?_⟩
    · exact (cursor.look_coming index).trans (stands.coming index)
    · exact cursor.take_yieldedEnd.trans stands.finished
  | take =>
    exact ⟨congrArg some first, others, cursor.take_yieldedEnd.trans stands.finished⟩
  | yield =>
    rw [Cursor.answer, Cursor.yield?, Place.answer, stands.finished]
    cases place.finished with
    | true => exact ⟨rfl, stands⟩
    | false =>
      refine ⟨congrArg some first, others, ?_⟩
      rw [← first]
      exact isEnd_eq _

/-- The same for calls one after the other. -/
theorem At.replies (stands : cursor.At token place) (calls : List Call) :
    Call.replies Cursor.answer cursor calls = Call.replies (Place.answer token) place calls ∧
      Call.taken Cursor.answer cursor calls = Call.taken (Place.answer token) place calls := by
  induction calls generalizing cursor place with
  | nil => exact ⟨rfl, rfl⟩
  | cons call calls ih =>
    obtain ⟨same, next⟩ := stands.answer call
    obtain ⟨replies, taken⟩ := ih next
    simp only [Call.replies, Call.taken, same, replies, taken, and_self]

private theorem Place.taken_eq (token : Nat → Token) (place : Place) (calls : List Call) :
    ∃ count, Call.taken (Place.answer token) place calls =
      (List.range' place.index count).map token := by
  induction calls generalizing place with
  | nil => exact ⟨0, rfl⟩
  | cons call calls ih =>
    obtain ⟨count, others⟩ := ih (place.answer token call).2
    rw [Call.taken, others]
    cases call with
    | look => exact ⟨count, rfl⟩
    | take => exact ⟨count + 1, rfl⟩
    | yield =>
      rw [Place.answer]
      cases place.finished with
      | true => exact ⟨count, rfl⟩
      | false => exact ⟨count + 1, rfl⟩

theorem at_start (source : List Char) :
    (ofSource source).At (Lexer.tokenAt source) ⟨0, false⟩ where
  coming index := by
    rw [Nat.zero_add, ← Lexer.tokenFrom_zero]
    rfl
  finished := rfl

/-- Any calls on a source are answered by its tokens as by a sequence with one place in it, in
which the end of the source follows the last token for ever. The tokens that are handed out are
the first ones of the sequence, none left out and none repeated. -/
theorem replies_eq_place (source : List Char) (calls : List Call) :
    Call.replies answer (ofSource source) calls =
        Call.replies (Place.answer (Lexer.tokenAt source)) ⟨0, false⟩ calls ∧
      (∃ count, Call.taken answer (ofSource source) calls =
        (List.range count).map (Lexer.tokenAt source)) ∧
      (∀ index, (Lexer.tokenAt source index).kind = .endOfInput ↔
        (Lexer.tokens source).length ≤ index) ∧
      ∀ index, (Lexer.tokens source).length ≤ index →
        (Lexer.tokenAt source index).span = .point (Text.size source) := by
  obtain ⟨replies, taken⟩ := (at_start source).replies calls
  obtain ⟨count, inOrder⟩ := Place.taken_eq (Lexer.tokenAt source) ⟨0, false⟩ calls
  have behind : ∀ index, (Lexer.tokens source).length ≤ index →
      Lexer.tokenAt source index = Token.atEnd (Text.size source) := by
    intro index last
    rw [Lexer.tokenAt, List.getElem?_eq_none last]
    rfl
  refine ⟨replies, ⟨count, ?_⟩, fun index => ⟨fun ends => ?_, fun last => ?_⟩, fun index last => ?_⟩
  · rw [taken, inOrder, List.range_eq_range']
  · refine Nat.not_lt.mp fun inside => ?_
    rw [Lexer.tokenAt, List.getElem?_eq_getElem inside] at ends
    exact Lexer.kind_ne_endOfInput (Lexer.tokens_proper source _ (List.getElem_mem _)) ends
  · rw [behind index last]
    rfl
  · rw [behind index last]
    rfl

/-- Iteration hands out a token that was looked at, and stops behind the end; taking does not. -/
example :
    (Call.replies answer (ofSource ['x']) [.look, .yield, .look, .yield, .yield, .take]).map
        (Option.map Token.kind) =
      [some .identifier, some .identifier, some .endOfInput, some .endOfInput, none,
        some .endOfInput] := by
  decide +kernel

end Cursor

end ClamSyntax
