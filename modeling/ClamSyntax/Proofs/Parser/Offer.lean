import ClamSyntax.Proofs.Parser.Soundness

/-! Truthful expectations. A reader that stops and says what it expected is truthful if whatever it
has on offer could go on with the tokens that it took. An operator on offer need not belong to the
operand behind which it was expected: a reader whose least power is too high leaves it to the
readers around it. The rules below follow the shapes of the readers, as those of the accounts. -/

namespace ClamSyntax

/-- The lexemes on offer where something was expected and not found. -/
def Expectation.Offers : Expectation → Lexeme → Prop
  | .expression, lexeme =>
    (∃ name, lexeme = .identifier name) ∨ (∃ value, Literal.value? lexeme = some (.ok value)) ∨
      ∃ fixed ∈ [Symbol.leftParen, .leftBrace, .binary .sub, .kwNot], lexeme = .symbol fixed
  | .continuation, lexeme => ∃ op, lexeme = .symbol (.binary op)
  | .identifier, lexeme => ∃ name, lexeme = .identifier name
  | .symbol fixed, lexeme => lexeme = .symbol fixed
  | .itemSeparator, lexeme => lexeme = .symbol .comma ∨ lexeme = .symbol .rightBrace
  | .endOfInput, _ | .described _, _ => False

namespace Parser

section Category

variable {part : Category β} {category : Category α} {before : List Token}

/-- Some value of the category begins with the tokens and goes on with this one. -/
def Category.Takes (category : Category α) (taken : List Token) (token : Token) : Prop :=
  category.Begins (taken ++ [token])

/-- The tokens are a value, and the operator behind them is left to the readers around. -/
def Category.Passes (category : Category α) (taken : List Token) (token : Token) : Prop :=
  ∃ value op, token.lexeme = .symbol (.binary op) ∧ category.tokens value = taken ∧
    category.Holds value ∧ category.Ends value (.operator op)

def Category.Welcomes (category : Category α) (taken : List Token) (token : Token) : Prop :=
  category.Takes taken token ∨ category.Passes taken token

/-- A value takes what a part of it takes. -/
theorem Category.takes_within
    (completes : ∀ value, part.Holds value → category.Begins (before ++ part.tokens value))
    (taken : List Token) (token : Token) (takes : part.Takes taken token) :
    category.Takes (before ++ taken) token := by
  rw [Takes, List.append_assoc]
  exact Begins.within takes completes

theorem Category.welcomes_part
    (completes : ∀ value, part.Holds value → category.Begins (before ++ part.tokens value))
    (taken : List Token) (token : Token) (takes : part.Takes taken token) :
    category.Welcomes (before ++ taken) token :=
  .inl (takes_within completes taken token takes)

/-- A value welcomes what its last part welcomes. -/
theorem Category.welcomes_last (build : β → α)
    (spelled : ∀ value, category.tokens (build value) = before ++ part.tokens value)
    (holds : ∀ value, part.Holds value → category.Holds (build value))
    (ends : ∀ value continuation, part.Ends value continuation →
      category.Ends (build value) continuation)
    (taken : List Token) (token : Token) (welcome : part.Welcomes taken token) :
    category.Welcomes (before ++ taken) token := by
  rcases welcome with takes | ⟨value, op, operator, rfl, valid, ended⟩
  · refine .inl (takes_within (fun value valid => ?_) taken token takes)
    rw [← spelled value]
    exact category.begins_of_holds (build value) (holds value valid)
  · exact .inr ⟨build value, op, operator, spelled value, holds value valid, ends value _ ended⟩

/-- At the least power of all, an expression leaves no operator. -/
theorem takes_of_welcomes (taken : List Token) (token : Token)
    (welcome : (Category.expression 0).Welcomes taken token) :
    (Category.expression 0).Takes taken token := by
  rcases welcome with takes | ⟨value, op, -, -, -, low, -⟩
  · exact takes
  · exact absurd low (Nat.not_lt_zero _)

end Category

/-- The expectation of a reader that stops, behind the tokens that were read before for the same
value: something is on offer, and all that is on offer is taken behind the tokens so far. -/
structure Truthful (takes : List Token → Token → Prop) (before : List Token)
    (reader : List Token → Reading α) (tokens : List Token) : Prop where
  stopped : ∀ {what rest}, reader tokens = .error ⟨.expected what, rest⟩ →
    (∃ lexeme : Lexeme, lexeme.Proper ∧ what.Offers lexeme) ∧
    ∃ taken, tokens = taken ++ rest ∧
      ∀ token : Token, what.Offers token.lexeme → takes (before ++ taken) token

namespace Truthful

variable {takes takesPart : List Token → Token → Prop} {before tokens : List Token}
  {reader : List Token → Reading α}

theorem given {value : α} {rest : List Token} (same : reader tokens = .ok (value, rest)) :
    Truthful takes before reader tokens where
  stopped found := by
    rw [same] at found
    cases found

theorem refuse {what : Expectation} (same : reader tokens = .error ⟨.expected what, tokens⟩)
    (offer : ∃ lexeme : Lexeme, lexeme.Proper ∧ what.Offers lexeme)
    (welcome : ∀ token : Token, what.Offers token.lexeme → takes before token) :
    Truthful takes before reader tokens where
  stopped found := by
    rw [same] at found
    cases found
    exact ⟨offer, [], rfl, by simpa using welcome⟩

theorem token {token : Token} {next : List Token → Reading α}
    (same : ∀ later, reader (token :: later) = next later)
    (behind : Truthful takes (before ++ [token]) next tokens) :
    Truthful takes before reader (token :: tokens) where
  stopped found := by
    rw [same] at found
    obtain ⟨offer, taken, split, welcome⟩ := behind.stopped found
    exact ⟨offer, token :: taken, congrArg (token :: ·) split, by simpa using welcome⟩

theorem choose (chosen : List Token → Reading α) (behind : Truthful takes before chosen tokens)
    (same : reader tokens = chosen tokens) : Truthful takes before reader tokens where
  stopped found := behind.stopped (same.symm.trans found)

theorem mono (truthful : Truthful takesPart before reader tokens)
    (more : ∀ taken token, takesPart taken token → takes taken token) :
    Truthful takes before reader tokens where
  stopped found := by
    obtain ⟨offer, taken, split, welcome⟩ := truthful.stopped found
    exact ⟨offer, taken, split, fun token offered => more _ _ (welcome token offered)⟩

/-- A part is read, and the rest of the value behind it. -/
theorem sequence {part : Category β} {first : List Token → Reading β}
    {next : β → List Token → Reading α} (account : Accounts part [] first tokens)
    (opening : Truthful takesPart [] first tokens)
    (behind : ∀ value rest, part.Holds value → part.Ends value (upcoming rest) →
      tokens = part.tokens value ++ rest →
      Truthful takes (before ++ part.tokens value) (next value) rest)
    (within : ∀ taken token, takesPart taken token → takes (before ++ taken) token) :
    Truthful takes before (fun tokens => (first tokens).andThen next) tokens where
  stopped found := by
    cases opened : first tokens with
    | error stop =>
      rw [opened] at found
      cases found
      obtain ⟨offer, taken, split, welcome⟩ := opening.stopped opened
      exact ⟨offer, taken, split, fun token offered => within _ _ (welcome token offered)⟩
    | ok reading =>
      obtain ⟨value, middle⟩ := reading
      rw [opened] at found
      obtain ⟨spelling, split, spelled, holds, ends, -⟩ := account.read opened
      rw [List.nil_append] at spelled
      obtain ⟨offer, taken, splitMore, welcome⟩ :=
        (behind value middle holds ends (by rw [spelled, split])).stopped found
      refine ⟨offer, spelling ++ taken, by rw [split, splitMore, List.append_assoc], ?_⟩
      rw [spelled, List.append_assoc] at welcome
      exact welcome

theorem last {first : List Token → Reading β} {build : β → α}
    (opening : Truthful takesPart [] first tokens)
    (within : ∀ taken token, takesPart taken token → takes (before ++ taken) token) :
    Truthful takes before
      (fun tokens => (first tokens).andThen fun value rest => .ok (build value, rest)) tokens where
  stopped found := by
    cases opened : first tokens with
    | ok reading =>
      rw [opened] at found
      cases found
    | error stop =>
      rw [opened] at found
      cases found
      obtain ⟨offer, taken, split, welcome⟩ := opening.stopped opened
      exact ⟨offer, taken, split, fun token offered => within _ _ (welcome token offered)⟩

end Truthful

end Parser

end ClamSyntax
