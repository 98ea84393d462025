import ClamSyntax.Arena
import ClamSyntax.Phrase

/-! Storing phrases. The nodes of a phrase are appended in post-order, children in
source order before their parent. Parentheses have no node: the node inside covers
them with its range. -/

namespace ClamSyntax

/-- The result of storing a phrase: the store, and position and range of its node. -/
structure Stored where
  arena : Arena
  root : Nat
  span : Span

namespace Arena

def add (arena : Arena) (form : Form) (span : Span) : Stored :=
  let root := arena.size
  ⟨arena.push ⟨form, span⟩, root, span⟩

/-- Appends one function for every parameter, the innermost first, all over one range. -/
def addFunctions (body : Stored) (span : Span) : List Name → Stored
  | [] => body
  | param :: outer => addFunctions (body.arena.add (.function param.text body.root) span) span outer

end Arena

mutual

/-- Appends the nodes of a phrase. `outer` is the range of the parentheses around it,
if there are any. -/
def Phrase.store (arena : Arena) (outer : Option Span) : Phrase → Stored
  | .literal token value => arena.add (.literal value) (outer.getD token.span)
  | .name name => arena.add (.name name.text) (outer.getD name.span)
  | .list opening items =>
    let (arena, roots, closing) := items.store arena
    arena.add (.list roots) (outer.getD ⟨opening, closing + 1⟩)
  | .letIn opening bindings _ body =>
    let (arena, bound) := bindings.store arena
    let body := body.store arena none
    body.arena.add (.letIn bound body.root) (outer.getD ⟨opening, body.span.stop⟩)
  | .function opening first more _ body =>
    let body := body.store arena none
    let span : Span := ⟨opening, body.span.stop⟩
    let inner := Arena.addFunctions body span more.reverse
    inner.arena.add (.function first.text inner.root) (outer.getD span)
  | .print opening operand =>
    let operand := operand.store arena none
    operand.arena.add (.print operand.root) (outer.getD ⟨opening, operand.span.stop⟩)
  | .conditional opening condition _ yes _ no =>
    let condition := condition.store arena none
    let yes := yes.store condition.arena none
    let no := no.store yes.arena none
    no.arena.add (.conditional condition.root yes.root no.root)
      (outer.getD ⟨opening, no.span.stop⟩)
  | .unary op opening operand =>
    let operand := operand.store arena none
    operand.arena.add (.unary op (op.symbol.at opening).span operand.root)
      (outer.getD ⟨opening, operand.span.stop⟩)
  | .group opening body closing =>
    body.store arena (some (outer.getD ⟨opening, closing + 1⟩))
  | .binary left op place right =>
    let left := left.store arena none
    let right := right.store left.arena none
    right.arena.add (.binary op ((Symbol.binary op).at place).span left.root right.root)
      (outer.getD ⟨left.span.start, right.span.stop⟩)
  | .application function argument =>
    let function := function.store arena none
    let argument := argument.store function.arena none
    argument.arena.add (.application function.root argument.root)
      (outer.getD ⟨function.span.start, argument.span.stop⟩)
  | .subscript target _ index closing =>
    let target := target.store arena none
    let index := index.store target.arena none
    index.arena.add (.subscript target.root index.root)
      (outer.getD ⟨target.span.start, closing + 1⟩)

/-- Appends the nodes of the items; with their positions comes the place of the brace. -/
def Items.store (arena : Arena) : Items → Arena × List Nat × Nat
  | .close closing => (arena, [], closing)
  | .last item closing =>
    let item := item.store arena none
    (item.arena, [item.root], closing)
  | .more item _ rest =>
    let item := item.store arena none
    let (arena, roots, closing) := rest.store item.arena
    (arena, item.root :: roots, closing)

/-- Appends the nodes of the bound values. -/
def Bindings.store (arena : Arena) : Bindings → Arena × List LetBinding
  | .last name _ value =>
    let value := value.store arena none
    (value.arena, [⟨name.span, name.text, value.root⟩])
  | .more name _ value _ rest =>
    let value := value.store arena none
    let (arena, bound) := rest.store value.arena
    (arena, ⟨name.span, name.text, value.root⟩ :: bound)

end

/-- Appends the nodes of the finished pieces. -/
def Piece.storeAll (arena : Arena) (pieces : List Piece) : Arena :=
  pieces.foldl (fun arena piece =>
    match piece with
    | .complete phrase => (phrase.store arena none).arena
    | _ => arena) arena

end ClamSyntax
