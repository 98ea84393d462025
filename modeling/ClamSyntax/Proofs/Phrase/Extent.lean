import ClamSyntax.Proofs.Arena.Storage
import ClamSyntax.Proofs.Phrase.Relocation

namespace ClamSyntax

namespace Phrase

def last : Phrase → Token
  | .literal token _ => token
  | .name written => written.token
  | .list _ items => Symbol.rightBrace.at items.closing
  | .letIn _ _ _ body => body.last
  | .function _ _ _ _ body => body.last
  | .print _ operand => operand.last
  | .conditional _ _ _ _ _ no => no.last
  | .unary _ _ operand => operand.last
  | .group _ _ closing => Symbol.rightParen.at closing
  | .binary _ _ _ right => right.last
  | .application _ argument => argument.last
  | .subscript _ _ _ closing => Symbol.rightBracket.at closing

theorem span_start (phrase : Phrase) : phrase.span.start = phrase.first.start := by
  cases phrase with
  | binary operand | application operand | subscript operand => exact operand.span_start
  | _ => rfl

theorem span_stop (phrase : Phrase) : phrase.span.stop = phrase.last.stop := by
  cases phrase with
  | letIn _ _ _ operand | function _ _ _ _ operand | print _ operand
  | conditional _ _ _ _ _ operand | unary _ _ operand | binary _ _ _ operand
  | application _ operand => exact operand.span_stop
  | _ => rfl

theorem span_eq (phrase : Phrase) : phrase.span = ⟨phrase.first.start, phrase.last.stop⟩ := by
  rw [← phrase.span_start, ← phrase.span_stop]

end Phrase

private theorem Items.exists_tokens_eq_concat (items : Items) :
    ∃ front, items.tokens = front ++ [Symbol.rightBrace.at items.closing] := by
  cases items with
  | close => exact ⟨[], rfl⟩
  | last item => exact ⟨item.tokens, rfl⟩
  | more item comma rest =>
    obtain ⟨front, same⟩ := rest.exists_tokens_eq_concat
    exact ⟨item.tokens ++ Symbol.comma.at comma :: front,
      by simp [Items.tokens, Items.closing, same]⟩

namespace Phrase

theorem exists_tokens_eq_concat (phrase : Phrase) :
    ∃ front, phrase.tokens = front ++ [phrase.last] := by
  cases phrase with
  | literal | name => exact ⟨[], rfl⟩
  | list opening items =>
    obtain ⟨front, same⟩ := items.exists_tokens_eq_concat
    exact ⟨Symbol.leftBrace.at opening :: front, congrArg (_ :: ·) same⟩
  | group opening body closing => exact ⟨Symbol.leftParen.at opening :: body.tokens, rfl⟩
  | subscript target opening index closing =>
    exact ⟨target.tokens ++ Symbol.leftBracket.at opening :: index.tokens, by simp [tokens, last]⟩
  | letIn _ _ _ operand | function _ _ _ _ operand | print _ operand
  | conditional _ _ _ _ _ operand | unary _ _ operand | binary _ _ _ operand
  | application _ operand =>
    obtain ⟨front, same⟩ := operand.exists_tokens_eq_concat
    simp only [tokens, last, same, ← List.cons_append, ← List.append_assoc]
    exact ⟨_, rfl⟩

theorem first_mem (phrase : Phrase) : phrase.first ∈ phrase.tokens := by
  obtain ⟨rest, same⟩ := phrase.exists_tokens_eq_cons
  rw [same]
  exact List.mem_cons_self

theorem last_mem (phrase : Phrase) : phrase.last ∈ phrase.tokens := by
  obtain ⟨front, same⟩ := phrase.exists_tokens_eq_concat
  rw [same]
  exact List.mem_append_right _ List.mem_cons_self

end Phrase

private theorem Items.closing_relocate (move : Nat → Nat) (items : Items) :
    (items.relocate move).closing = move items.closing := by
  cases items with
  | more _ _ rest => exact rest.closing_relocate move
  | _ => rfl

namespace Phrase

theorem first_relocate (move : Nat → Nat) (phrase : Phrase) :
    (phrase.relocate move).first = phrase.first.relocate move := by
  cases phrase with
  | binary operand | application operand | subscript operand => exact operand.first_relocate move
  | _ => rfl

theorem last_relocate (move : Nat → Nat) (phrase : Phrase) :
    (phrase.relocate move).last = phrase.last.relocate move := by
  cases phrase with
  | list _ items => exact congrArg (Symbol.at .rightBrace) (items.closing_relocate move)
  | letIn _ _ _ operand | function _ _ _ _ operand | print _ operand
  | conditional _ _ _ _ _ operand | unary _ _ operand | binary _ _ _ operand
  | application _ operand => exact operand.last_relocate move
  | _ => rfl

end Phrase

end ClamSyntax
