import ClamSyntax.Phrase.Parser

/-! The phrases of the language. A phrase is grammatical if its literals have the values
that their tokens denote and if no operand exposes a form that binds more loosely than
its place admits. The conditions speak about whole spines, because a form deep on the
right of an operand can take what follows the operand. -/

namespace ClamSyntax

namespace Phrase

/-- The phrases met on the way down the first operands. Parentheses end the way. -/
def leftSpine : Phrase → List Phrase
  | .binary left op place right => .binary left op place right :: left.leftSpine
  | .application callee argument => .application callee argument :: callee.leftSpine
  | .subscript target opening index closing =>
    .subscript target opening index closing :: target.leftSpine
  | phrase => [phrase]

/-- The phrases met on the way down the last operands. Parentheses end the way. -/
def rightSpine : Phrase → List Phrase
  | .binary left op place right => .binary left op place right :: right.rightSpine
  | .application callee argument => .application callee argument :: argument.rightSpine
  | .unary op opening operand => .unary op opening operand :: operand.rightSpine
  | .letIn opening bindings inAt body => .letIn opening bindings inAt body :: body.rightSpine
  | .function opening first more arrow body =>
    .function opening first more arrow body :: body.rightSpine
  | .print opening operand => .print opening operand :: operand.rightSpine
  | .conditional opening condition thenAt yes elseAt no =>
    .conditional opening condition thenAt yes elseAt no :: no.rightSpine
  | phrase => [phrase]

theorem mem_leftSpine (phrase : Phrase) : phrase ∈ phrase.leftSpine := by
  cases phrase <;> exact List.mem_cons_self

theorem mem_rightSpine (phrase : Phrase) : phrase ∈ phrase.rightSpine := by
  cases phrase <;> exact List.mem_cons_self

/-- The phrase may stand first in an operand that is read at this least power. -/
def Admits (power : Nat) : Phrase → Prop
  | .binary _ op _ _ => power ≤ op.power.left
  | .application .. => power ≤ Power.application.left
  | _ => True

/-- The phrase, standing last in an operand, leaves an infix form of this left power to
the phrase around it. -/
def Yields (power : Nat) : Phrase → Prop
  | .binary _ op _ _ => power < op.power.right
  | .unary .not .. | .letIn .. | .function .. | .print .. | .conditional .. => False
  | _ => True

/-- The phrase ends with a token of its own. -/
def Closed : Phrase → Prop
  | .literal .. | .name _ | .list .. | .group .. | .subscript .. => True
  | _ => False

def IsNegation : Phrase → Prop
  | .unary .negate .. => True
  | _ => False

end Phrase

mutual

/-- Literals have the values of their tokens, and operands respect the binding powers. -/
def Phrase.Grammatical : Phrase → Prop
  | .literal token value => Literal.value? token.lexeme = some (.ok value)
  | .name _ => True
  | .list _ items => items.Grammatical
  | .letIn _ bindings _ body => bindings.Grammatical ∧ body.Grammatical
  | .function _ _ _ _ body => body.Grammatical
  | .print _ operand => operand.Grammatical
  | .conditional _ condition _ yes _ no =>
    condition.Grammatical ∧ yes.Grammatical ∧ no.Grammatical
  | .unary op _ operand =>
    operand.Grammatical ∧ ∀ part ∈ operand.leftSpine, part.Admits op.power
  | .group _ body _ => body.Grammatical
  | .binary left op _ right =>
    left.Grammatical ∧ right.Grammatical ∧
      (∀ part ∈ left.rightSpine, part.Yields op.power.left) ∧
      ∀ part ∈ right.leftSpine, part.Admits op.power.right
  | .application function argument =>
    function.Grammatical ∧ argument.Grammatical ∧
      (∀ part ∈ function.rightSpine, part.Yields Power.application.left) ∧
      (∀ part ∈ argument.leftSpine, part.Admits Power.application.right) ∧
      ¬ argument.IsNegation
  | .subscript target _ index _ => target.Grammatical ∧ index.Grammatical ∧ target.Closed

def Items.Grammatical : Items → Prop
  | .close _ => True
  | .last item _ => item.Grammatical
  | .more item _ rest => item.Grammatical ∧ rest.Grammatical

def Bindings.Grammatical : Bindings → Prop
  | .last _ _ value => value.Grammatical
  | .more _ _ value _ rest => value.Grammatical ∧ rest.Grammatical

end

/-- What the tokens behind an operand mean for it. -/
def upcoming : List Token → Continuation
  | [] => .stop
  | token :: _ => token.kind.continuation

/-- An operand that is read at this least power ends before such a continuation. -/
def Continuation.Stops (least : Nat) : Continuation → Prop
  | .operator op => op.power.left < least
  | .argument => Power.application.left < least
  | .stop => True
  | .subscript | .misplaced => False

namespace Phrase

/-- The continuation is not taken, or refused, by a form inside the phrase. -/
def Releases (phrase : Phrase) : Continuation → Prop
  | .operator op => ∀ part ∈ phrase.rightSpine, part.Yields op.power.left
  | .argument => ∀ part ∈ phrase.rightSpine, part.Yields Power.application.left
  | .stop => True
  | .subscript | .misplaced => phrase.Closed

theorem admits_zero (phrase : Phrase) : phrase.Admits 0 := by
  cases phrase <;> first | exact Nat.zero_le _ | trivial

/-- The operand at the end of the phrase and the least power at which it was read. -/
def lastOperand? : Phrase → Option (Nat × Phrase)
  | .binary _ op _ right => some (op.power.right, right)
  | .application _ argument => some (Power.application.right, argument)
  | .unary op _ operand => some (op.power, operand)
  | .letIn _ _ _ body => some (0, body)
  | .function _ _ _ _ body => some (0, body)
  | .print _ operand => some (0, operand)
  | .conditional _ _ _ _ _ no => some (0, no)
  | _ => none

private theorem rightSpine_of_lastOperand {phrase operand : Phrase} {power : Nat}
    (last : phrase.lastOperand? = some (power, operand)) :
    phrase.rightSpine = phrase :: operand.rightSpine := by
  cases phrase <;> cases last <;> rfl

private theorem not_closed_of_lastOperand {phrase operand : Phrase} {power : Nat}
    (last : phrase.lastOperand? = some (power, operand)) : ¬ phrase.Closed := by
  cases phrase <;> cases last <;> exact id

private theorem rightSpine_of_closed {phrase : Phrase} (closed : phrase.Closed) :
    phrase.rightSpine = [phrase] := by
  cases phrase <;> first | rfl | cases closed

/-- Whether a form lets go of an infix form is decided by the power of its last operand. -/
theorem yields_iff_of_lastOperand {phrase operand : Phrase} {power left : Nat}
    (last : phrase.lastOperand? = some (power, operand))
    (positive : 0 < left) (bounded : left ≤ Power.application.left) :
    phrase.Yields left ↔ left < power := by
  have below_argument : left < Power.application.right := Nat.lt_succ_of_le bounded
  have below_negation : left < UnaryOp.negate.power := Nat.lt_succ_of_lt below_argument
  have above_not : ¬ left < UnaryOp.not.power := Nat.not_lt.mpr positive
  cases phrase with
  | unary op opening operand =>
    cases op with
    | not => cases last; simp only [Yields, above_not]
    | negate => cases last; simp only [Yields, below_negation]
  | application callee argument => cases last; simp only [Yields, below_argument]
  | binary first op place right => cases last; exact Iff.rfl
  | _ => cases last <;> simp only [Yields, Nat.not_lt_zero]

end Phrase

private theorem BinaryOp.power_pos (op : BinaryOp) : 0 < op.power.left := by
  cases op <;> decide

namespace Phrase

/-- A phrase with an operand at its end lets go of exactly what stops that operand and is
let go of by it. -/
theorem releases_iff_of_lastOperand {phrase operand : Phrase} {power : Nat}
    {continuation : Continuation} (last : phrase.lastOperand? = some (power, operand)) :
    phrase.Releases continuation ↔ continuation.Stops power ∧ operand.Releases continuation := by
  have spine := rightSpine_of_lastOperand last
  cases continuation with
  | operator op =>
    have yields := yields_iff_of_lastOperand last op.power_pos
      (Nat.le_of_lt op.power_lt_application.1)
    simp only [Releases, Continuation.Stops, spine, List.forall_mem_cons, yields]
  | argument =>
    have yields := yields_iff_of_lastOperand last (by decide) (Nat.le_refl Power.application.left)
    simp only [Releases, Continuation.Stops, spine, List.forall_mem_cons, yields]
  | stop => simp only [Releases, Continuation.Stops, and_self]
  | subscript => simp [Releases, Continuation.Stops, not_closed_of_lastOperand last]
  | misplaced => simp [Releases, Continuation.Stops, not_closed_of_lastOperand last]

theorem Closed.releases {phrase : Phrase} (closed : phrase.Closed)
    (continuation : Continuation) : phrase.Releases continuation := by
  have yields (power : Nat) : ∀ part ∈ phrase.rightSpine, part.Yields power := by
    rw [rightSpine_of_closed closed, List.forall_mem_singleton]
    cases phrase with
    | literal | name | list | group | subscript => trivial
    | _ => cases closed
  cases continuation with
  | operator op => exact yields _
  | argument => exact yields _
  | stop => trivial
  | subscript => exact closed
  | misplaced => exact closed

end Phrase

/-- A token that begins something where an operand is due begins an argument behind a
finished operand, unless it is the minus sign. -/
theorem Lexeme.continuation_of_opening {lexeme : Lexeme} (opens : lexeme.opening ≠ .nothing)
    (noMinus : lexeme ≠ .symbol (.binary .sub)) : lexeme.kind.continuation = .argument := by
  cases lexeme with
  | symbol fixed =>
    cases fixed with
    | binary op => cases op <;> first | exact absurd rfl opens | exact absurd rfl noMinus
    | _ => first | rfl | exact absurd rfl opens
  | invalid text => exact absurd rfl opens
  | endOfInput => exact absurd rfl opens
  | _ => rfl

namespace Phrase

def first : Phrase → Token
  | .literal token _ => token
  | .name written => written.token
  | .list opening _ => Symbol.leftBrace.at opening
  | .letIn opening .. => Symbol.kwLet.at opening
  | .function opening .. => Symbol.kwFun.at opening
  | .print opening _ => Symbol.kwPrint.at opening
  | .conditional opening .. => Symbol.kwIf.at opening
  | .unary op opening _ => op.symbol.at opening
  | .group opening .. => Symbol.leftParen.at opening
  | .binary left .. => left.first
  | .application callee _ => callee.first
  | .subscript target .. => target.first

theorem exists_tokens_eq_cons (phrase : Phrase) :
    ∃ rest, phrase.tokens = phrase.first :: rest := by
  cases phrase with
  | binary operand | application operand | subscript operand =>
    obtain ⟨rest, same⟩ := operand.exists_tokens_eq_cons
    exact ⟨_, by rw [tokens, same, List.cons_append]; rfl⟩
  | _ => exact ⟨_, rfl⟩

theorem tokens_ne_nil (phrase : Phrase) : phrase.tokens ≠ [] := by
  obtain ⟨rest, same⟩ := phrase.exists_tokens_eq_cons
  rw [same]
  exact List.cons_ne_nil _ _

theorem opening_of_value {lexeme : Lexeme} {value : Except Literal.BadEscape Value}
    (denotes : Literal.value? lexeme = some value) : lexeme.opening = .literal value := by
  simp only [Lexeme.opening, denotes]

theorem Grammatical.first_opens : ∀ {phrase : Phrase}, phrase.Grammatical →
    phrase.first.lexeme.opening ≠ .nothing
  | .literal .., grammatical => by
    rw [first, opening_of_value grammatical]
    exact nofun
  | .name _, _ | .list .., _ | .letIn .., _ | .function .., _ | .print .., _ | .conditional .., _
  | .group .., _ => nofun
  | .unary op .., _ => by cases op <;> exact nofun
  | .binary .., grammatical => grammatical.1.first_opens
  | .application .., grammatical => grammatical.1.first_opens
  | .subscript .., grammatical => grammatical.1.first_opens

private theorem Closed.not_isNegation {phrase : Phrase} (closed : phrase.Closed) :
    ¬ phrase.IsNegation := by
  cases phrase <;> first | exact id | cases closed

/-- Only a negation begins with the minus sign, as far as an argument is concerned. -/
theorem Grammatical.first_ne_minus : ∀ {phrase : Phrase}, phrase.Grammatical →
    (∀ part ∈ phrase.leftSpine, part.Admits Power.application.right) → ¬ phrase.IsNegation →
    phrase.first.lexeme ≠ .symbol (.binary .sub)
  | .literal .., grammatical, _, _ => by
    intro minus
    simp only [first] at minus
    rw [Grammatical, minus] at grammatical
    cases grammatical
  | .name _, _, _, _ | .list .., _, _, _ | .letIn .., _, _, _ | .function .., _, _, _
  | .print .., _, _, _ | .conditional .., _, _, _ | .group .., _, _, _ => nofun
  | .unary op .., _, _, noNegation => by
    cases op with
    | not => exact nofun
    | negate => exact absurd trivial noNegation
  | .binary left op place right, _, admits, _ => by
    have bound : Power.application.right ≤ op.power.left := admits _ List.mem_cons_self
    have small := op.power_lt_application.1
    simp only [Power.application] at bound small
    omega
  | .application .., _, admits, _ => by
    have bound : Power.application.right ≤ Power.application.left :=
      admits _ List.mem_cons_self
    exact absurd bound (by decide)
  | .subscript target .., grammatical, admits, _ =>
    grammatical.1.first_ne_minus (fun part member => admits part (List.mem_cons_of_mem _ member))
      grammatical.2.2.not_isNegation

end Phrase

end ClamSyntax
