import ClamSyntax.Proofs.Phrase.Relocation

/-! Phrases with one part taken out. A frame is a form with one of its operands missing, and
the frames from a whole phrase down to one of its parts make a path. Filling a path with
another part replaces the part, and a part may be replaced by anything that asks no more of
its place. -/

namespace ClamSyntax

inductive Items.Frame where
  | last (closing : Nat)
  | more (comma : Nat) (rest : Items)
  /-- The missing item stands behind this one. -/
  | later (item : Phrase) (comma : Nat) (inner : Frame)

inductive Bindings.Frame where
  | last (name : Name) (assign : Nat)
  | more (name : Name) (assign comma : Nat) (rest : Bindings)
  /-- The missing value stands behind this one. -/
  | later (name : Name) (assign : Nat) (value : Phrase) (comma : Nat) (inner : Frame)

/-- A phrase with one operand missing. -/
inductive Phrase.Frame where
  | item (opening : Nat) (items : Items.Frame)
  | bound (opening : Nat) (bindings : Bindings.Frame) (inAt : Nat) (body : Phrase)
  | letBody (opening : Nat) (bindings : Bindings) (inAt : Nat)
  | functionBody (opening : Nat) (first : Name) (more : List Name) (arrow : Nat)
  | printed (opening : Nat)
  | test (opening thenAt : Nat) (yes : Phrase) (elseAt : Nat) (no : Phrase)
  | thenBranch (opening : Nat) (condition : Phrase) (thenAt elseAt : Nat) (no : Phrase)
  | elseBranch (opening : Nat) (condition : Phrase) (thenAt : Nat) (yes : Phrase) (elseAt : Nat)
  | operand (op : UnaryOp) (opening : Nat)
  | grouped (opening closing : Nat)
  | leftOperand (op : BinaryOp) (place : Nat) (right : Phrase)
  | rightOperand (left : Phrase) (op : BinaryOp) (place : Nat)
  | called (argument : Phrase)
  | passed (callee : Phrase)
  | subscripted (opening : Nat) (index : Phrase) (closing : Nat)
  | position (target : Phrase) (opening closing : Nat)

namespace Items.Frame

def fill (part : Phrase) : Items.Frame → Items
  | last closing => .last part closing
  | more comma rest => .more part comma rest
  | later item comma inner => .more item comma (inner.fill part)

def before : Items.Frame → List Token
  | last _ | more .. => []
  | later item comma inner => item.tokens ++ Symbol.comma.at comma :: inner.before

def after : Items.Frame → List Token
  | last closing => [Symbol.rightBrace.at closing]
  | more comma rest => Symbol.comma.at comma :: rest.tokens
  | later _ _ inner => inner.after

def relocate (move : Nat → Nat) : Items.Frame → Items.Frame
  | last closing => .last (move closing)
  | more comma rest => .more (move comma) (rest.relocate move)
  | later item comma inner => .later (item.relocate move) (move comma) (inner.relocate move)

end Items.Frame

namespace Bindings.Frame

def fill (part : Phrase) : Bindings.Frame → Bindings
  | last name assign => .last name assign part
  | more name assign comma rest => .more name assign part comma rest
  | later name assign value comma inner => .more name assign value comma (inner.fill part)

def before : Bindings.Frame → List Token
  | last name assign | more name assign .. => [name.token, Symbol.assign.at assign]
  | later name assign value comma inner =>
    name.token :: Symbol.assign.at assign ::
      (value.tokens ++ Symbol.comma.at comma :: inner.before)

def after : Bindings.Frame → List Token
  | last .. => []
  | more _ _ comma rest => Symbol.comma.at comma :: rest.tokens
  | later _ _ _ _ inner => inner.after

def relocate (move : Nat → Nat) : Bindings.Frame → Bindings.Frame
  | last name assign => .last (name.relocate move) (move assign)
  | more name assign comma rest =>
    .more (name.relocate move) (move assign) (move comma) (rest.relocate move)
  | later name assign value comma inner =>
    .later (name.relocate move) (move assign) (value.relocate move) (move comma)
      (inner.relocate move)

end Bindings.Frame

namespace Phrase.Frame

def fill (part : Phrase) : Frame → Phrase
  | item opening items => .list opening (items.fill part)
  | bound opening bindings inAt body => .letIn opening (bindings.fill part) inAt body
  | letBody opening bindings inAt => .letIn opening bindings inAt part
  | functionBody opening first more arrow => .function opening first more arrow part
  | printed opening => .print opening part
  | test opening thenAt yes elseAt no => .conditional opening part thenAt yes elseAt no
  | thenBranch opening condition thenAt elseAt no =>
    .conditional opening condition thenAt part elseAt no
  | elseBranch opening condition thenAt yes elseAt =>
    .conditional opening condition thenAt yes elseAt part
  | operand op opening => .unary op opening part
  | grouped opening closing => .group opening part closing
  | leftOperand op place right => .binary part op place right
  | rightOperand left op place => .binary left op place part
  | called argument => .application part argument
  | passed callee => .application callee part
  | subscripted opening index closing => .subscript part opening index closing
  | position target opening closing => .subscript target opening part closing

/-- The tokens in front of the missing operand. -/
def before : Frame → List Token
  | item opening items => Symbol.leftBrace.at opening :: items.before
  | bound opening bindings _ _ => Symbol.kwLet.at opening :: bindings.before
  | letBody opening bindings inAt =>
    Symbol.kwLet.at opening :: (bindings.tokens ++ [Symbol.kwIn.at inAt])
  | functionBody opening first more arrow =>
    Symbol.kwFun.at opening :: first.token :: (more.map Name.token ++ [Symbol.arrow.at arrow])
  | printed opening => [Symbol.kwPrint.at opening]
  | test opening .. => [Symbol.kwIf.at opening]
  | thenBranch opening condition thenAt _ _ =>
    Symbol.kwIf.at opening :: (condition.tokens ++ [Symbol.kwThen.at thenAt])
  | elseBranch opening condition thenAt yes elseAt =>
    Symbol.kwIf.at opening :: (condition.tokens ++ Symbol.kwThen.at thenAt ::
      (yes.tokens ++ [Symbol.kwElse.at elseAt]))
  | operand op opening => [op.symbol.at opening]
  | grouped opening _ => [Symbol.leftParen.at opening]
  | leftOperand .. | called _ | subscripted .. => []
  | rightOperand left op place => left.tokens ++ [(Symbol.binary op).at place]
  | passed callee => callee.tokens
  | position target opening _ => target.tokens ++ [Symbol.leftBracket.at opening]

/-- The tokens behind the missing operand. -/
def after : Frame → List Token
  | item _ items => items.after
  | bound _ bindings inAt body => bindings.after ++ Symbol.kwIn.at inAt :: body.tokens
  | letBody .. | functionBody .. | printed _ | elseBranch .. | operand .. | rightOperand ..
  | passed _ => []
  | test _ thenAt yes elseAt no =>
    Symbol.kwThen.at thenAt :: (yes.tokens ++ Symbol.kwElse.at elseAt :: no.tokens)
  | thenBranch _ _ _ elseAt no => Symbol.kwElse.at elseAt :: no.tokens
  | grouped _ closing => [Symbol.rightParen.at closing]
  | leftOperand op place right => (Symbol.binary op).at place :: right.tokens
  | called argument => argument.tokens
  | subscripted opening index closing =>
    Symbol.leftBracket.at opening :: (index.tokens ++ [Symbol.rightBracket.at closing])
  | position _ _ closing => [Symbol.rightBracket.at closing]

def relocate (move : Nat → Nat) : Frame → Frame
  | item opening items => .item (move opening) (items.relocate move)
  | bound opening bindings inAt body =>
    .bound (move opening) (bindings.relocate move) (move inAt) (body.relocate move)
  | letBody opening bindings inAt =>
    .letBody (move opening) (bindings.relocate move) (move inAt)
  | functionBody opening first more arrow =>
    .functionBody (move opening) (first.relocate move) (more.map (Name.relocate move))
      (move arrow)
  | printed opening => .printed (move opening)
  | test opening thenAt yes elseAt no =>
    .test (move opening) (move thenAt) (yes.relocate move) (move elseAt) (no.relocate move)
  | thenBranch opening condition thenAt elseAt no =>
    .thenBranch (move opening) (condition.relocate move) (move thenAt) (move elseAt)
      (no.relocate move)
  | elseBranch opening condition thenAt yes elseAt =>
    .elseBranch (move opening) (condition.relocate move) (move thenAt) (yes.relocate move)
      (move elseAt)
  | operand op opening => .operand op (move opening)
  | grouped opening closing => .grouped (move opening) (move closing)
  | leftOperand op place right => .leftOperand op (move place) (right.relocate move)
  | rightOperand left op place => .rightOperand (left.relocate move) op (move place)
  | called argument => .called (argument.relocate move)
  | passed callee => .passed (callee.relocate move)
  | subscripted opening index closing =>
    .subscripted (move opening) (index.relocate move) (move closing)
  | position target opening closing =>
    .position (target.relocate move) (move opening) (move closing)

end Phrase.Frame

/-! Tokens and offsets -/

variable {part : Phrase}

private theorem Items.Frame.tokens_fill (frame : Items.Frame) (part : Phrase) :
    (frame.fill part).tokens = frame.before ++ (part.tokens ++ frame.after) := by
  induction frame with
  | last | more => rfl
  | later item comma inner ih => simp [fill, before, after, tokens, ih]

private theorem Bindings.Frame.tokens_fill (frame : Bindings.Frame) (part : Phrase) :
    (frame.fill part).tokens = frame.before ++ (part.tokens ++ frame.after) := by
  induction frame with
  | last => simp [fill, before, after, tokens]
  | more => rfl
  | later name assign value comma inner ih => simp [fill, before, after, tokens, ih]

theorem Phrase.Frame.tokens_fill (frame : Frame) (part : Phrase) :
    (frame.fill part).tokens = frame.before ++ (part.tokens ++ frame.after) := by
  cases frame with
  | item _ items => simp [fill, before, after, tokens, items.tokens_fill]
  | bound _ bindings => simp [fill, before, after, tokens, bindings.tokens_fill]
  | _ => simp [fill, before, after, tokens]

theorem Phrase.Frame.tokens_sublist (frame : Frame) (part : Phrase) :
    part.tokens.Sublist (frame.fill part).tokens := by
  rw [frame.tokens_fill]
  exact (List.sublist_append_left ..).trans (List.sublist_append_right ..)

variable (move : Nat → Nat)

private theorem Items.Frame.fill_relocate (frame : Items.Frame) :
    (frame.relocate move).fill (part.relocate move) = (frame.fill part).relocate move := by
  induction frame with
  | last | more => rfl
  | later item comma inner ih => exact congrArg (Items.more _ _) ih

private theorem Bindings.Frame.fill_relocate (frame : Bindings.Frame) :
    (frame.relocate move).fill (part.relocate move) = (frame.fill part).relocate move := by
  induction frame with
  | last | more => rfl
  | later name assign value comma inner ih => exact congrArg (Bindings.more _ _ _ _) ih

private theorem Phrase.Frame.fill_relocate (frame : Frame) :
    (frame.relocate move).fill (part.relocate move) = (frame.fill part).relocate move := by
  cases frame with
  | item opening items => exact congrArg (Phrase.list _) (items.fill_relocate move)
  | bound opening bindings inAt body =>
    exact congrArg (Phrase.letIn _ · _ _) (bindings.fill_relocate move)
  | _ => rfl

private theorem Items.Frame.before_relocate (frame : Items.Frame) :
    (frame.relocate move).before = frame.before.map (Token.relocate move) := by
  induction frame with
  | last | more => rfl
  | later item comma inner ih =>
    simp [relocate, before, item.tokens_relocate, ih, Symbol.at_relocate]

private theorem Items.Frame.after_relocate (frame : Items.Frame) :
    (frame.relocate move).after = frame.after.map (Token.relocate move) := by
  induction frame with
  | last => rfl
  | more comma rest => exact congrArg (_ :: ·) (rest.tokens_relocate move)
  | later item comma inner ih => exact ih

private theorem Bindings.Frame.before_relocate (frame : Bindings.Frame) :
    (frame.relocate move).before = frame.before.map (Token.relocate move) := by
  induction frame with
  | last | more => rfl
  | later name assign value comma inner ih =>
    simp [relocate, before, value.tokens_relocate, ih, Symbol.at_relocate, Name.token_relocate]

private theorem Bindings.Frame.after_relocate (frame : Bindings.Frame) :
    (frame.relocate move).after = frame.after.map (Token.relocate move) := by
  induction frame with
  | last => rfl
  | more name assign comma rest => exact congrArg (_ :: ·) (rest.tokens_relocate move)
  | later name assign value comma inner ih => exact ih

private theorem Phrase.Frame.before_relocate (frame : Frame) :
    (frame.relocate move).before = frame.before.map (Token.relocate move) := by
  cases frame with
  | item _ items => exact congrArg (_ :: ·) (items.before_relocate move)
  | bound _ bindings => exact congrArg (_ :: ·) (bindings.before_relocate move)
  | _ =>
    simp [relocate, before, Phrase.tokens_relocate, Bindings.tokens_relocate, Symbol.at_relocate,
      Name.token_relocate]

private theorem Phrase.Frame.after_relocate (frame : Frame) :
    (frame.relocate move).after = frame.after.map (Token.relocate move) := by
  cases frame with
  | item _ items => exact items.after_relocate move
  | bound _ bindings =>
    simp [relocate, after, Phrase.tokens_relocate, bindings.after_relocate, Symbol.at_relocate]
  | _ => simp [relocate, after, Phrase.tokens_relocate, Symbol.at_relocate]

/-! What a place asks of its operand -/

/-- The new phrase asks no more of its place than the old one. -/
structure Phrase.MayReplace (new old : Phrase) : Prop where
  grammatical : old.Grammatical → new.Grammatical
  admits : ∀ power, (∀ part ∈ old.leftSpine, part.Admits power) →
    ∀ part ∈ new.leftSpine, part.Admits power
  yields : ∀ power, (∀ part ∈ old.rightSpine, part.Yields power) →
    ∀ part ∈ new.rightSpine, part.Yields power
  closed : old.Closed → new.Closed
  isNegation : new.IsNegation → old.IsNegation

/-- Parentheses keep what follows from what is inside them. -/
theorem Phrase.group_mayReplace (opening : Nat) (body : Phrase) (closing : Nat) :
    (Phrase.group opening body closing).MayReplace body where
  grammatical := id
  admits _ _ := List.forall_mem_singleton.mpr trivial
  yields _ _ := List.forall_mem_singleton.mpr trivial
  closed _ := trivial
  isNegation := False.elim

variable {new old : Phrase}

private theorem Items.Frame.grammatical_fill (frame : Items.Frame)
    (inner : old.Grammatical → new.Grammatical) (grammatical : (frame.fill old).Grammatical) :
    (frame.fill new).Grammatical := by
  induction frame with
  | last => exact inner grammatical
  | more => exact ⟨inner grammatical.1, grammatical.2⟩
  | later _ _ _ ih => exact ⟨grammatical.1, ih grammatical.2⟩

private theorem Bindings.Frame.grammatical_fill (frame : Bindings.Frame)
    (inner : old.Grammatical → new.Grammatical) (grammatical : (frame.fill old).Grammatical) :
    (frame.fill new).Grammatical := by
  induction frame with
  | last => exact inner grammatical
  | more => exact ⟨inner grammatical.1, grammatical.2⟩
  | later _ _ _ _ _ ih => exact ⟨grammatical.1, ih grammatical.2⟩

namespace Phrase

private theorem Frame.grammatical_fill (frame : Frame) (inner : new.MayReplace old)
    (grammatical : (frame.fill old).Grammatical) : (frame.fill new).Grammatical := by
  cases frame with
  | item _ items => exact items.grammatical_fill inner.grammatical grammatical
  | bound _ bindings =>
    exact ⟨bindings.grammatical_fill inner.grammatical grammatical.1, grammatical.2⟩
  | letBody => exact ⟨grammatical.1, inner.grammatical grammatical.2⟩
  | functionBody | printed | grouped => exact inner.grammatical grammatical
  | test => exact ⟨inner.grammatical grammatical.1, grammatical.2⟩
  | thenBranch =>
    exact ⟨grammatical.1, inner.grammatical grammatical.2.1, grammatical.2.2⟩
  | elseBranch =>
    exact ⟨grammatical.1, grammatical.2.1, inner.grammatical grammatical.2.2⟩
  | operand => exact ⟨inner.grammatical grammatical.1, inner.admits _ grammatical.2⟩
  | leftOperand =>
    obtain ⟨first, second, yields, admits⟩ := grammatical
    exact ⟨inner.grammatical first, second, inner.yields _ yields, admits⟩
  | rightOperand =>
    obtain ⟨first, second, yields, admits⟩ := grammatical
    exact ⟨first, inner.grammatical second, yields, inner.admits _ admits⟩
  | called =>
    obtain ⟨first, second, yields, rest⟩ := grammatical
    exact ⟨inner.grammatical first, second, inner.yields _ yields, rest⟩
  | passed =>
    obtain ⟨first, second, yields, admits, noNegation⟩ := grammatical
    exact ⟨first, inner.grammatical second, yields, inner.admits _ admits,
      fun negation => noNegation (inner.isNegation negation)⟩
  | subscripted =>
    obtain ⟨first, second, closed⟩ := grammatical
    exact ⟨inner.grammatical first, second, inner.closed closed⟩
  | position =>
    obtain ⟨first, second, closed⟩ := grammatical
    exact ⟨first, inner.grammatical second, closed⟩

private theorem Frame.yields_fill (frame : Frame) (power : Nat) :
    (frame.fill new).Yields power ↔ (frame.fill old).Yields power := by
  cases frame with
  | operand op => cases op <;> exact Iff.rfl
  | _ => exact Iff.rfl

/-- What may replace a part may do so inside any form. -/
theorem MayReplace.fill (inner : new.MayReplace old) (frame : Frame) :
    (frame.fill new).MayReplace (frame.fill old) where
  grammatical := frame.grammatical_fill inner
  admits power admits := by
    cases frame with
    | leftOperand | called | subscripted =>
      obtain ⟨here, below⟩ := List.forall_mem_cons.mp admits
      exact List.forall_mem_cons.mpr ⟨here, inner.admits power below⟩
    | rightOperand | passed | position =>
      obtain ⟨here, below⟩ := List.forall_mem_cons.mp admits
      exact List.forall_mem_cons.mpr ⟨here, below⟩
    | _ => exact List.forall_mem_singleton.mpr trivial
  yields power yields := by
    have own : (frame.fill new).Yields power ↔ (frame.fill old).Yields power :=
      frame.yields_fill power
    cases frame with
    | rightOperand | passed | operand | letBody | functionBody | printed | elseBranch =>
      obtain ⟨here, below⟩ := List.forall_mem_cons.mp yields
      exact List.forall_mem_cons.mpr ⟨own.mpr here, inner.yields power below⟩
    | leftOperand | called | bound | test | thenBranch =>
      obtain ⟨here, below⟩ := List.forall_mem_cons.mp yields
      exact List.forall_mem_cons.mpr ⟨own.mpr here, below⟩
    | item | grouped | subscripted | position => exact List.forall_mem_singleton.mpr trivial
  closed closed := by
    cases frame <;> exact closed
  isNegation negation := by
    cases frame with
    | operand op =>
      cases op with
      | not => exact negation
      | negate => trivial
    | _ => exact negation

end Phrase

/-! Paths -/

/-- The frames from a phrase down to one of its parts, the outermost first. -/
inductive Phrase.Path where
  | here
  | into (frame : Frame) (rest : Path)

namespace Phrase.Path

def fill (part : Phrase) : Path → Phrase
  | here => part
  | into frame rest => frame.fill (rest.fill part)

def before : Path → List Token
  | here => []
  | into frame rest => frame.before ++ rest.before

def after : Path → List Token
  | here => []
  | into frame rest => rest.after ++ frame.after

def relocate (move : Nat → Nat) : Path → Path
  | here => here
  | into frame rest => into (frame.relocate move) (rest.relocate move)

theorem tokens_fill (path : Path) (part : Phrase) :
    (path.fill part).tokens = path.before ++ (part.tokens ++ path.after) := by
  induction path with
  | here => simp [fill, before, after]
  | into frame rest ih => simp [fill, before, after, frame.tokens_fill, ih]

theorem fill_relocate (path : Path) :
    (path.relocate move).fill (part.relocate move) = (path.fill part).relocate move := by
  induction path with
  | here => rfl
  | into frame rest ih =>
    rw [relocate, fill, ih, frame.fill_relocate]
    rfl

theorem before_relocate (path : Path) :
    (path.relocate move).before = path.before.map (Token.relocate move) := by
  induction path with
  | here => rfl
  | into frame rest ih => simp [relocate, before, frame.before_relocate, ih]

theorem after_relocate (path : Path) :
    (path.relocate move).after = path.after.map (Token.relocate move) := by
  induction path with
  | here => rfl
  | into frame rest ih => simp [relocate, after, frame.after_relocate, ih]

theorem mayReplace_fill (inner : new.MayReplace old) (path : Path) :
    (path.fill new).MayReplace (path.fill old) := by
  induction path with
  | here => exact inner
  | into frame rest ih => exact ih.fill frame

end Phrase.Path

end ClamSyntax
