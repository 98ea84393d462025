import ClamSyntax.Proofs.Arena.Relocation
import ClamSyntax.Proofs.Arena.Size
import ClamSyntax.Proofs.Session.Consumption
import ClamSyntax.Proofs.Session.Parse

/-! How large the store of a session becomes. Every token that is left stands for two nodes that
may still come. No call, whether it succeeds or fails, adds more of them than the tokens that it
takes allow, so the store never outgrows twice the tokens of the source. -/

namespace ClamSyntax

namespace Session

/-- The nodes so far, and two for every token that is left. -/
def budget (session : Session) : Nat := session.arena.size + 2 * session.rest.length

/-- A call stays within the budget, and a call that succeeds leaves some of it. -/
theorem budget_answer (session : Session) (call : Call) :
    match (session.answer call).result with
    | .ok _ => (session.answer call).session.budget < session.budget
    | .error _ => (session.answer call).session.budget ≤ session.budget := by
  have splits := session.reading_splits call
  rw [session.answer_eq]
  generalize session.reading call = reading at splits
  match reading, splits with
  | .ok (phrase, rest), splits =>
    have fewer := phrase.size_store_lt session.arena
    have lengths := congrArg List.length splits
    rw [List.length_append] at lengths
    change (phrase.store session.arena none).arena.size + 2 * rest.length < session.budget
    rw [budget]
    omega
  | .error failure, splits =>
    have fewer := Piece.size_storeAll_le failure.pieces session.arena
    have lengths := congrArg List.length splits
    rw [List.length_append, Parser.Failure.taken] at lengths
    change (Piece.storeAll session.arena failure.pieces).size + 2 * failure.rest.tail.length ≤
      session.budget
    rw [budget, List.length_tail]
    omega

private theorem budget_answer_le (session : Session) (call : Call) :
    (session.answer call).session.budget ≤ session.budget := by
  have within := session.budget_answer call
  split at within
  · exact Nat.le_of_lt within
  · exact within

/-- So do any calls, one after the other. -/
theorem budget_after_le (session : Session) (calls : List Call) :
    (session.after calls).budget ≤ session.budget := by
  induction calls generalizing session with
  | nil => exact Nat.le_refl _
  | cons call calls ih =>
    exact (ih (session.answer call).session).trans (session.budget_answer_le call)

theorem budget_ofSource (source : List Char) :
    (ofSource source).budget = 2 * (Lexer.tokens source).length :=
  Nat.zero_add _

/-- After any calls on a source the store has at most two nodes for each token that they took. -/
theorem after_size_le (source : List Char) (calls : List Call) :
    let session := (ofSource source).after calls
    session.arena.size + 2 * session.rest.length ≤ 2 * (Lexer.tokens source).length :=
  ((ofSource source).budget_after_le calls).trans_eq (budget_ofSource source)

end Session

/-- A source of identifiers only is accepted as the application of the first one to the others. -/
theorem identifiers_accepted {source : List Char} {callee : String} {arguments : List String}
    (spelled : (Lexer.tokens source).map Token.lexeme =
      (callee :: arguments).map Lexeme.identifier) :
    ∃ arena root, parse source = .ok (arena, root) ∧
      arena.expr? root = .ok (arguments.foldl
        (fun inner argument => .application inner (.name argument)) (.name callee)) ∧
      arena.size = 2 * arguments.length + 1 := by
  let names : List Name := arguments.map fun argument => ⟨argument, 0⟩
  let first : Phrase := .name ⟨callee, 0⟩
  let phrase := first.applied names
  have texts : names.map Name.text = arguments := by
    rw [List.map_map]
    exact List.map_id arguments
  have lexemes : phrase.tokens.map Token.lexeme = (callee :: arguments).map Lexeme.identifier := by
    simp [phrase, first, names, Phrase.tokens_applied, Phrase.tokens, Name.token, Function.comp_def]
  have plain : first.Grammatical := trivial
  have grammatical : phrase.Grammatical :=
    Phrase.applied_grammatical plain (List.forall_mem_singleton.mpr trivial) names
  obtain ⟨other, same, alike⟩ := phrase.exists_alike _ (spelled.trans lexemes.symm)
  have preceding : other.preceding = 2 * arguments.length := by
    rw [← other.preceding_relocate fun _ => 0, alike, phrase.preceding_relocate,
      Phrase.preceding_applied, List.length_map]
    exact Nat.zero_add _
  refine ⟨other.stored, other.preceding,
    parse_eq_ok_iff.mpr ⟨other, same, alike.grammatical grammatical, rfl⟩, ?_, ?_⟩
  · rw [other.expr?_stored, alike.expr_eq, Phrase.expr_applied, texts]
    rfl
  · rw [other.stored_size, preceding]

/-- Of a source with `count` tokens, reading it to the end leaves at most `2 * count - 1` nodes if
it succeeds, and at most `2 * count` if it fails. The first bound is reached: one identifier
applied to any number of others is accepted and has exactly that many nodes. There is such a
source for each number. -/
theorem arena_size_linear :
    (∀ source : List Char,
      let count := (Lexer.tokens source).length
      let answer := (Session.ofSource source).program
      match answer.result with
      | .ok _ => answer.session.arena.size + 1 ≤ 2 * count
      | .error _ => answer.session.arena.size ≤ 2 * count) ∧
    (∀ (source : List Char) (callee : String) (arguments : List String),
      (Lexer.tokens source).map Token.lexeme = (callee :: arguments).map Lexeme.identifier →
      ∃ arena root, parse source = .ok (arena, root) ∧
        arena.expr? root = .ok (arguments.foldl
          (fun inner argument => .application inner (.name argument)) (.name callee)) ∧
        (Lexer.tokens source).length = arguments.length + 1 ∧
        arena.size + 1 = 2 * (Lexer.tokens source).length) ∧
    ∀ more : Nat, ∃ source : List Char, (Lexer.tokens source).map Token.lexeme =
      List.replicate (more + 1) (.identifier "x") := by
  refine ⟨fun source => ?_, fun source callee arguments spelled => ?_, fun more => ?_⟩
  · intro count answer
    have within := (Session.ofSource source).budget_answer .program
    rw [Session.budget_ofSource] at within
    change match answer.result with
      | .ok _ => answer.session.budget < 2 * count
      | .error _ => answer.session.budget ≤ 2 * count at within
    have nodes : answer.session.arena.size ≤ answer.session.budget := Nat.le_add_right _ _
    split at within
    · exact Nat.lt_of_le_of_lt nodes within
    · exact nodes.trans within
  · obtain ⟨arena, root, accepted, expr, size⟩ := identifiers_accepted spelled
    have count : (Lexer.tokens source).length = arguments.length + 1 := by
      rw [← List.length_map, spelled, List.length_map, List.length_cons]
    exact ⟨arena, root, accepted, expr, count, by omega⟩
  · refine ⟨_, Lexer.tokens_spaced fun lexeme member => ?_⟩
    rw [List.eq_of_mem_replicate member]
    exact Parser.filler_proper

/-- `f x y` is `f` applied to `x` and to `y`: five nodes for three tokens. -/
theorem application_size :
    ∃ arena root, parse "f x y".toList = .ok (arena, root) ∧
      arena.expr? root =
        .ok (.application (.application (.name "f") (.name "x")) (.name "y")) ∧
      (Lexer.tokens "f x y".toList).length = 3 ∧
      arena.size + 1 = 2 * (Lexer.tokens "f x y".toList).length :=
  arena_size_linear.2.1 "f x y".toList "f" ["x", "y"] (by cbv)

end ClamSyntax
