import ClamSyntax.Proofs.Arena.Contents
import ClamSyntax.Proofs.Parser.Completeness
import ClamSyntax.Proofs.Parser.Soundness
import ClamSyntax.Proofs.Phrase.Transcript
import ClamSyntax.Session
import Mathlib

namespace ClamSyntax

theorem program_ok_iff {tokens : List Token} {phrase : Phrase} :
    Parser.program tokens = .ok phrase ↔ phrase.tokens = tokens ∧ phrase.Grammatical := by
  have same : Parser.program tokens = .ok phrase ↔ Parser.readProgram tokens = .ok phrase := by
    rw [Parser.readProgram]
    cases Parser.program tokens with
    | ok other => constructor <;> (intro found; cases found; rfl)
    | error failure => constructor <;> (intro found; cases found)
  rw [same]
  constructor
  · exact Parser.readProgram_sound
  · rintro ⟨rfl, grammatical⟩
    exact Parser.readProgram_tokens grammatical

/-- The store after reading a phrase into an empty one. -/
def Phrase.stored (phrase : Phrase) : Arena := Arena.empty.append (phrase.nodes 0 none)

theorem Phrase.stored_holds (phrase : Phrase) : phrase.stored.Holds 0 (phrase.nodes 0 none) :=
  Arena.append_holds .empty _

theorem Phrase.get?_stored (phrase : Phrase) (index : Nat) :
    phrase.stored.get? index = (phrase.nodes 0 none)[index]? := by
  simp [stored, Arena.append, Arena.get?, Arena.empty]

theorem Phrase.stored_size (phrase : Phrase) : phrase.stored.size = phrase.preceding + 1 := by
  rw [stored, Arena.size_append, nodes_length]
  exact Nat.zero_add _

theorem Phrase.expr?_stored (phrase : Phrase) :
    phrase.stored.expr? phrase.preceding = .ok phrase.expr := by
  have found := phrase.exprBelow_of_holds 0 none phrase.stored_holds phrase.stored.size
  rw [Nat.zero_add, stored_size] at found
  rw [Arena.expr?, stored_size]
  exact found (Nat.lt_succ_self _)

/-- Parsing is one reading of all tokens and, if it succeeds, one storing. -/
theorem parse_eq (source : List Char) :
    parse source = match Parser.program (Lexer.tokens source) with
      | .ok phrase => .ok (phrase.stored, phrase.preceding)
      | .error failure => .error (failure.error (Text.size source)) := by
  simp only [parse, Session.program, Session.ofSource]
  cases Parser.program (Lexer.tokens source) with
  | error failure => rfl
  | ok phrase =>
    simp only [Session.accept, phrase.store_eq]
    rw [show Arena.empty.size = 0 from rfl, Nat.zero_add]
    rfl

theorem parse_eq_ok_iff {source : List Char} {result : Arena × Nat} :
    parse source = .ok result ↔ ∃ phrase : Phrase, phrase.tokens = Lexer.tokens source ∧
      phrase.Grammatical ∧ result = (phrase.stored, phrase.preceding) := by
  rw [parse_eq]
  constructor
  · intro accepted
    split at accepted
    · rename_i phrase read
      cases accepted
      exact ⟨phrase, (program_ok_iff.mp read).1, (program_ok_iff.mp read).2, rfl⟩
    · cases accepted
  · rintro ⟨phrase, spelled, grammatical, rfl⟩
    rw [program_ok_iff.mpr ⟨spelled, grammatical⟩]

theorem parse_eq_error_iff {source : List Char} {error : SyntaxError} :
    parse source = .error error ↔ ∃ failure, Parser.program (Lexer.tokens source) = .error failure ∧
      error = failure.error (Text.size source) := by
  rw [parse_eq]
  constructor
  · intro rejected
    split at rejected
    · cases rejected
    · rename_i failure read
      cases rejected
      exact ⟨failure, read, rfl⟩
  · rintro ⟨failure, read, rfl⟩
    rw [read]

/-- Every grammatical phrase is accepted wherever its lexemes stand, with the expression
that it denotes, and lexemes that a source can hold do stand in some source. -/
theorem grammatical_accepted (phrase : Phrase) (grammatical : phrase.Grammatical) :
    ((∀ token ∈ phrase.tokens, token.lexeme.Proper) → ∃ source,
      (Lexer.tokens source).map Token.lexeme = phrase.tokens.map Token.lexeme) ∧
    ∀ source, (Lexer.tokens source).map Token.lexeme = phrase.tokens.map Token.lexeme →
      ∃ arena root, parse source = .ok (arena, root) ∧ arena.expr? root = .ok phrase.expr := by
  refine ⟨fun proper => ?_, fun source spelled => ?_⟩
  · refine ⟨Lexer.spaced (phrase.tokens.map Token.lexeme), Lexer.tokens_spaced ?_⟩
    exact List.forall_mem_map.mpr proper
  · obtain ⟨other, same, alike⟩ := phrase.exists_alike _ spelled
    refine ⟨other.stored, other.preceding, ?_, ?_⟩
    · exact parse_eq_ok_iff.mpr ⟨other, same, alike.grammatical grammatical, rfl⟩
    · rw [other.expr?_stored, alike.expr_eq]

/-- In `f (x + 1)[i]` the argument is the whole subscript. -/
theorem subscript_argument_accepted :
    ∃ arena root, parse "f (x + 1)[i]".toList = .ok (arena, root) ∧
      arena.expr? root = .ok (.application (.name "f")
        (.subscript (.binary .add (.name "x") (.literal (.int 1))) (.name "i"))) := by
  let sum : Phrase :=
    .binary (.name ⟨"x", 3⟩) .add 5 (.literal ⟨.integer ['1'], 7⟩ (.int 1))
  let phrase : Phrase :=
    .application (.name ⟨"f", 0⟩) (.subscript (.group 2 sum 8) 9 (.name ⟨"i", 10⟩) 11)
  have grammatical : phrase.Grammatical := by
    simp [phrase, sum, Phrase.Grammatical, Phrase.leftSpine, Phrase.rightSpine, Phrase.Admits,
      Phrase.Yields, Phrase.Closed, Phrase.IsNegation, Literal.value?]
    rfl
  exact (grammatical_accepted phrase grammatical).2 _ (by cbv)

/-- The accepted tree, written out, is the token sequence of the source up to the ways of
writing that the tree does not keep. -/
theorem accepted_transcript {source : List Char} {arena : Arena} {root : Nat}
    (accepted : parse source = .ok (arena, root)) :
    ∃ expr, arena.expr? root = .ok expr ∧
      Lexeme.transcribe ((Lexer.tokens source).map Token.lexeme) = expr.transcript ∧
      Lexeme.Balanced ((Lexer.tokens source).map Token.lexeme) ∧
      ∀ token ∈ Lexer.tokens source, token.kind ≠ .invalid := by
  obtain ⟨phrase, spelled, grammatical, same⟩ := parse_eq_ok_iff.mp accepted
  cases same
  rw [← spelled]
  refine ⟨phrase.expr, phrase.expr?_stored, ?_, ?_, phrase.kind_ne_invalid grammatical⟩
  · have written := phrase.transcribe_tokens [] grammatical
    rw [List.append_nil] at written
    exact written.trans (List.append_nil _)
  · have balanced := phrase.depth_tokens 0 [] grammatical
    rw [List.append_nil] at balanced
    exact balanced

theorem list_transcript :
    let arena : Arena :=
      ⟨#[⟨.name "a", ⟨1, 4⟩⟩, ⟨.name "b", ⟨6, 7⟩⟩, ⟨.list [0, 1], ⟨0, 9⟩⟩]⟩
    let lexemes := (Lexer.tokens "\x7b(a), b,\x7d".toList).map Token.lexeme
    ∃ expr, arena.expr? 2 = .ok expr ∧ Lexeme.transcribe lexemes = expr.transcript ∧
      Lexeme.Balanced lexemes ∧
      ∀ token ∈ Lexer.tokens "\x7b(a), b,\x7d".toList, token.kind ≠ .invalid :=
  accepted_transcript (by cbv)

end ClamSyntax
