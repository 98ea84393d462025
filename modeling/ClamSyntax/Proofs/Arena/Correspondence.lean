import ClamSyntax.Proofs.Arena.Widening
import Mathlib

/-! Nodes beside the tokens they are made of. Every literal of a phrase is stored once, in source
order, because an operand's nodes stand together and operands stand one behind the other. An
operator is stored behind its operands, so operators change their order; but every one of them, too,
is stored once, with its place. -/

namespace ClamSyntax

def Token.isLiteral (token : Token) : Bool := (Literal.value? token.lexeme).isSome

def Node.isLiteral (node : Node) : Bool :=
  match node.form with
  | .literal _ => true
  | _ => false

/-- The symbol of an operator, with its range. -/
def Token.operator? (token : Token) : Option (Symbol × Span) :=
  match token.lexeme with
  | .symbol .kwNot => some (.kwNot, token.span)
  | .symbol (.binary op) => some (.binary op, token.span)
  | _ => none

/-- The symbol of the operator that a node stands for, with the range that the node keeps. -/
def Node.operator? (node : Node) : Option (Symbol × Span) :=
  match node.form with
  | .unary op place _ => some (op.symbol, place)
  | .binary op place _ _ => some (.binary op, place)
  | _ => none

/-- The node is the literal that the token denotes, and it covers the token. -/
structure Token.StoredAs (token : Token) (node : Node) : Prop where
  value : ∃ value, Literal.value? token.lexeme = some (.ok value) ∧ node.form = .literal value
  covers : node.span.start ≤ token.start ∧ token.stop ≤ node.span.stop

/-- The nodes have the literals of the tokens, one by one, and their operators. -/
structure Mirrors (nodes : List Node) (tokens : List Token) : Prop where
  literals : List.Forall₂ Token.StoredAs
    (tokens.filter Token.isLiteral) (nodes.filter Node.isLiteral)
  operators : (tokens.filterMap Token.operator?).Perm (nodes.filterMap Node.operator?)

def Token.Silent (token : Token) : Prop := token.isLiteral = false ∧ token.operator? = none

def Node.Silent (node : Node) : Prop := node.isLiteral = false ∧ node.operator? = none

namespace Mirrors

variable {nodes others : List Node} {tokens more : List Token}

theorem nil : Mirrors [] [] := ⟨.nil, .nil⟩

theorem append (first : Mirrors nodes tokens) (second : Mirrors others more) :
    Mirrors (nodes ++ others) (tokens ++ more) where
  literals := by
    rw [List.filter_append, List.filter_append]
    exact List.rel_append first.literals second.literals
  operators := by
    rw [List.filterMap_append, List.filterMap_append]
    exact first.operators.append second.operators

/-- A token that is not stored may stand anywhere. -/
theorem token {silent : Token} (silence : silent.Silent) : Mirrors [] [silent] where
  literals := by
    rw [List.filter_singleton, silence.1]
    exact .nil
  operators := by
    rw [List.filterMap_cons_none silence.2]
    exact .nil

theorem node {silent : Node} (silence : silent.Silent) : Mirrors [silent] [] where
  literals := by
    rw [List.filter_singleton, silence.1]
    exact .nil
  operators := by
    rw [List.filterMap_cons_none silence.2]
    exact .nil

theorem opened {opening : Token} (silence : opening.Silent) (rest : Mirrors nodes tokens) :
    Mirrors nodes (opening :: tokens) :=
  (token silence).append rest

theorem closed {closing : Token} (rest : Mirrors nodes tokens) (silence : closing.Silent) :
    Mirrors nodes (tokens ++ [closing]) := by
  have whole := rest.append (token silence)
  rwa [List.append_nil] at whole

theorem behind (parts : Mirrors nodes tokens) (silent : Mirrors others []) :
    Mirrors (nodes ++ others) tokens := by
  have whole := parts.append silent
  rwa [List.append_nil] at whole

theorem formed {root : Node} (parts : Mirrors nodes tokens) (silence : root.Silent) :
    Mirrors (nodes ++ [root]) tokens :=
  parts.behind (node silence)

theorem literal {token : Token} {value : Value} {range : Span}
    (denotes : Literal.value? token.lexeme = some (.ok value))
    (covers : range.start ≤ token.start ∧ token.stop ≤ range.stop) :
    Mirrors [⟨.literal value, range⟩] [token] where
  literals := by
    have here : token.isLiteral = true := congrArg Option.isSome denotes
    rw [List.filter_singleton, here]
    exact .cons ⟨⟨value, denotes, rfl⟩, covers⟩ .nil
  operators := by
    have noOperator : token.operator? = none := by
      rw [Token.operator?]
      split
      · rename_i same
        cases (congrArg Literal.value? same).symm.trans denotes
      · rename_i same
        cases (congrArg Literal.value? same).symm.trans denotes
      · rfl
    rw [List.filterMap_cons_none noOperator]
    exact .nil

/-- The node of an operator, whose token stands in front of the last operand. -/
theorem operated {token : Token} {root : Node} (same : token.operator? = root.operator?)
    (noLiteral : token.isLiteral = false ∧ root.isLiteral = false)
    (operand : Mirrors nodes tokens) : Mirrors (nodes ++ [root]) (token :: tokens) where
  literals := by
    rw [List.filter_append, List.filter_singleton, noLiteral.2, List.filter_cons, noLiteral.1]
    exact (List.append_nil _).symm ▸ operand.literals
  operators := by
    rw [← List.singleton_append, List.filterMap_append, List.filterMap_append]
    have here : [token].filterMap Token.operator? = [root].filterMap Node.operator? := by
      simp only [List.filterMap_cons, List.filterMap_nil, same]
    rw [here]
    exact List.perm_append_comm.trans (operand.operators.append_right _)

theorem names : ∀ written : List Name, Mirrors [] (written.map Name.token)
  | [] => nil
  | _ :: written => (names written).opened ⟨rfl, rfl⟩

theorem functionNodes (span : Span) :
    ∀ (params : List Name) (body : Nat), Mirrors (Arena.functionNodes body span params) []
  | [], _ => nil
  | _ :: outer, body => (node ⟨rfl, rfl⟩).append (functionNodes span outer (body + 1))

end Mirrors

section

open Phrase (Frame)

mutual

/-- The nodes of a phrase mirror its tokens, whatever the parentheses around it cover. -/
theorem Phrase.mirrors : ∀ (phrase : Phrase) (base : Nat) (outer : Option Span),
    phrase.Grammatical → InOrder phrase.tokens →
      (∀ span ∈ outer, ∀ token ∈ phrase.tokens, span.start ≤ token.start ∧ token.stop ≤ span.stop) →
        Mirrors (phrase.nodes base outer) phrase.tokens
  | .literal token value, _, none, grammatical, _, _ =>
    .literal grammatical ⟨Nat.le_refl _, Nat.le_refl _⟩
  | .literal token value, _, some span, grammatical, _, covers =>
    .literal grammatical (covers span rfl token List.mem_cons_self)
  | .name name, _, _, _, _, _ => (Mirrors.node ⟨rfl, rfl⟩).opened ⟨rfl, rfl⟩
  | .list opening items, base, _, grammatical, inOrder, _ =>
    have inside := items.mirrors base grammatical (inOrder.sublist (List.sublist_cons_self ..))
    (inside.formed ⟨rfl, rfl⟩).opened ⟨rfl, rfl⟩
  | .letIn opening bindings inAt body, base, _, grammatical, inOrder, _ =>
    have front := (List.sublist_append_left bindings.tokens _).trans (List.sublist_cons_self ..)
    have values := bindings.mirrors base grammatical.1 (inOrder.sublist front)
    have last := body.mirrors _ none grammatical.2
      (inOrder.sublist (Frame.tokens_sublist (.letBody opening bindings inAt) body)) nofun
    (values.append ((last.formed ⟨rfl, rfl⟩).opened ⟨rfl, rfl⟩)).opened ⟨rfl, rfl⟩
  | .function opening first more arrow body, base, _, grammatical, inOrder, _ =>
    have inside := body.mirrors base none grammatical
      (inOrder.sublist (Frame.tokens_sublist (.functionBody opening first more arrow) body)) nofun
    have layers := Mirrors.functionNodes
      (Phrase.function opening first more arrow body).span more.reverse (base + body.preceding)
    have behind := (inside.behind (layers.formed ⟨rfl, rfl⟩)).opened ⟨rfl, rfl⟩
    (((Mirrors.names more).append behind).opened ⟨rfl, rfl⟩).opened ⟨rfl, rfl⟩
  | .print opening operand, base, _, grammatical, inOrder, _ =>
    have inside := operand.mirrors base none grammatical
      (inOrder.sublist (List.sublist_cons_self ..)) nofun
    (inside.formed ⟨rfl, rfl⟩).opened ⟨rfl, rfl⟩
  | .conditional opening condition thenAt yes elseAt no, base, _, grammatical, inOrder, _ =>
    have first := condition.mirrors base none grammatical.1
      (inOrder.sublist (Frame.tokens_sublist (.test opening thenAt yes elseAt no) condition)) nofun
    have second := yes.mirrors _ none grammatical.2.1 (inOrder.sublist
      (Frame.tokens_sublist (.thenBranch opening condition thenAt elseAt no) yes)) nofun
    have third := no.mirrors _ none grammatical.2.2 (inOrder.sublist
      (Frame.tokens_sublist (.elseBranch opening condition thenAt yes elseAt) no)) nofun
    (first.append ((second.append ((third.formed ⟨rfl, rfl⟩).opened ⟨rfl, rfl⟩)).opened
      ⟨rfl, rfl⟩)).opened ⟨rfl, rfl⟩
  | .unary op opening operand, base, _, grammatical, inOrder, _ =>
    have inside := operand.mirrors base none grammatical.1
      (inOrder.sublist (List.sublist_cons_self ..)) nofun
    inside.operated (by cases op <;> rfl) ⟨by cases op <;> rfl, rfl⟩
  | .group opening body closing, base, outer, grammatical, inOrder, covers => by
    have part := Frame.tokens_sublist (.grouped opening closing) body
    have around : ∀ span ∈ some (outer.getD ⟨opening, closing + 1⟩), ∀ token ∈ body.tokens,
        span.start ≤ token.start ∧ token.stop ≤ span.stop := by
      rintro _ ⟨⟩ token member
      cases outer with
      | none => exact Phrase.tokens_within inOrder token (part.subset member)
      | some span => exact covers span rfl token (part.subset member)
    have inside := body.mirrors base _ grammatical (inOrder.sublist part) around
    exact (inside.closed ⟨rfl, rfl⟩).opened ⟨rfl, rfl⟩
  | .binary left op place right, base, _, grammatical, inOrder, _ =>
    have first := left.mirrors base none grammatical.1
      (inOrder.sublist (Frame.tokens_sublist (.leftOperand op place right) left)) nofun
    have second := right.mirrors _ none grammatical.2.1
      (inOrder.sublist (Frame.tokens_sublist (.rightOperand left op place) right)) nofun
    first.append (second.operated rfl ⟨rfl, rfl⟩)
  | .application callee argument, base, _, grammatical, inOrder, _ =>
    have first := callee.mirrors base none grammatical.1
      (inOrder.sublist (Frame.tokens_sublist (.called argument) callee)) nofun
    have second := argument.mirrors _ none grammatical.2.1
      (inOrder.sublist (Frame.tokens_sublist (.passed callee) argument)) nofun
    first.append (second.formed ⟨rfl, rfl⟩)
  | .subscript target opening index closing, base, _, grammatical, inOrder, _ =>
    have first := target.mirrors base none grammatical.1
      (inOrder.sublist (Frame.tokens_sublist (.subscripted opening index closing) target)) nofun
    have second := index.mirrors _ none grammatical.2.1
      (inOrder.sublist (Frame.tokens_sublist (.position target opening closing) index)) nofun
    first.append (((second.formed ⟨rfl, rfl⟩).closed ⟨rfl, rfl⟩).opened ⟨rfl, rfl⟩)

theorem Items.mirrors : ∀ (items : Items) (base : Nat), items.Grammatical →
    InOrder items.tokens → Mirrors (items.nodes base) items.tokens
  | .close _, _, _, _ => .token ⟨rfl, rfl⟩
  | .last item _, base, grammatical, inOrder =>
    (item.mirrors base none grammatical
      (inOrder.sublist (List.sublist_append_left ..)) nofun).closed ⟨rfl, rfl⟩
  | .more item comma rest, base, grammatical, inOrder =>
    have back := (List.sublist_cons_self (Symbol.comma.at comma) rest.tokens).trans
      (List.sublist_append_right item.tokens _)
    have first := item.mirrors base none grammatical.1
      (inOrder.sublist (List.sublist_append_left ..)) nofun
    first.append ((rest.mirrors _ grammatical.2 (inOrder.sublist back)).opened ⟨rfl, rfl⟩)

theorem Bindings.mirrors : ∀ (bindings : Bindings) (base : Nat), bindings.Grammatical →
    InOrder bindings.tokens → Mirrors (bindings.nodes base) bindings.tokens
  | .last _ _ value, base, grammatical, inOrder =>
    have first := value.mirrors base none grammatical
      (inOrder.sublist (List.sublist_append_right [_, _] value.tokens)) nofun
    (first.opened ⟨rfl, rfl⟩).opened ⟨rfl, rfl⟩
  | .more name assign value comma rest, base, grammatical, inOrder =>
    have front :=
      (List.sublist_append_left value.tokens (Symbol.comma.at comma :: rest.tokens)).trans
        (List.sublist_append_right [name.token, Symbol.assign.at assign] _)
    have back := ((List.sublist_cons_self (Symbol.comma.at comma) rest.tokens).trans
      (List.sublist_append_right value.tokens _)).trans
        (List.sublist_append_right [name.token, Symbol.assign.at assign] _)
    have first := value.mirrors base none grammatical.1 (inOrder.sublist front) nofun
    have others := rest.mirrors _ grammatical.2 (inOrder.sublist back)
    ((first.append (others.opened ⟨rfl, rfl⟩)).opened ⟨rfl, rfl⟩).opened ⟨rfl, rfl⟩

end

end

/-! What the mirror shows of integers and of single operators -/

def Node.isInteger (node : Node) : Bool :=
  match node.form with
  | .literal (.int _) => true
  | _ => false

private theorem Token.StoredAs.isInteger_eq {token : Token} {node : Node}
    (stored : token.StoredAs node) :
    decide (token.kind = .integer) = node.isInteger := by
  obtain ⟨lexeme, start⟩ := token
  obtain ⟨value, denotes, form⟩ := stored.value
  rw [Node.isInteger, form]
  cases lexeme with
  | integer | decimal =>
    cases denotes
    rfl
  | quoted body =>
    rw [Literal.value?] at denotes
    cases resolved : Literal.unescape body with
    | error fault =>
      rw [resolved] at denotes
      cases denotes
    | ok text =>
      rw [resolved] at denotes
      cases denotes
      rfl
  | symbol fixed => cases fixed <;> cases denotes <;> rfl
  | identifier | invalid | endOfInput => cases denotes

private theorem Token.eq_of_operator {token : Token} {symbol : Symbol} {span : Span}
    (operator : token.operator? = some (symbol, span)) : token = symbol.at span.start := by
  obtain ⟨lexeme, start⟩ := token
  rw [Token.operator?] at operator
  split at operator
  · rename_i same
    cases same
    cases operator
    rfl
  · rename_i op same
    cases same
    cases operator
    rfl
  · cases operator

private theorem InOrder.nodup {tokens : List Token} (inOrder : InOrder tokens) : tokens.Nodup := by
  refine inOrder.ordered.imp_of_mem fun earlier _ ordered same => ?_
  subst same
  exact absurd (Nat.lt_of_lt_of_le (inOrder.extended _ earlier) ordered) (Nat.lt_irrefl _)

namespace Mirrors

variable {nodes : List Node} {tokens : List Token} (mirrors : Mirrors nodes tokens)
include mirrors

theorem integers : List.Forall₂ Token.StoredAs
    (tokens.filter fun token => token.kind = .integer) (nodes.filter Node.isInteger) := by
  have literalToken (token : Token) :
      (decide (token.kind = .integer) && token.isLiteral) = decide (token.kind = .integer) := by
    obtain ⟨lexeme, start⟩ := token
    cases lexeme <;> rfl
  have literalNode (node : Node) : (node.isInteger && node.isLiteral) = node.isInteger := by
    obtain ⟨form, span⟩ := node
    cases form with
    | literal value => exact Bool.and_true _
    | _ => rfl
  have chosen := List.rel_filter (p := fun token => decide (token.kind = .integer))
    (q := Node.isInteger) (fun {_ _} stored => Bool.eq_iff_iff.mp stored.isInteger_eq)
    mirrors.literals
  simpa only [List.filter_filter, literalToken, literalNode] using chosen

/-- Each operator has one node alone. -/
theorem exists_unique_operator (inOrder : InOrder tokens) {token : Token}
    (member : token ∈ tokens) {key : Symbol × Span} (operator : token.operator? = some key) :
    ∃! index : Nat, ∃ node : Node, nodes[index]? = some node ∧ node.operator? = some key := by
  have distinct : (tokens.filterMap Token.operator?).Nodup := by
    refine inOrder.nodup.filterMap fun first second key one other => ?_
    rw [Token.eq_of_operator one, Token.eq_of_operator other]
  have apart := List.pairwise_iff_getElem.mp
    (List.pairwise_filterMap.mp (mirrors.operators.nodup_iff.mp distinct))
  have listed : key ∈ nodes.filterMap Node.operator? :=
    mirrors.operators.mem_iff.mp (List.mem_filterMap.mpr ⟨token, member, operator⟩)
  obtain ⟨node, stored, same⟩ := List.mem_filterMap.mp listed
  obtain ⟨index, inside, rfl⟩ := List.getElem_of_mem stored
  refine ⟨index, ⟨_, List.getElem?_eq_getElem inside, same⟩, ?_⟩
  rintro other ⟨again, found, sameAgain⟩
  obtain ⟨insideOther, rfl⟩ := List.getElem?_eq_some_iff.mp found
  rcases Nat.lt_trichotomy other index with before | here | behind
  · exact absurd rfl (apart _ _ insideOther inside before _ sameAgain _ same)
  · exact here
  · exact absurd rfl (apart _ _ inside insideOther behind _ same _ sameAgain)

end Mirrors

end ClamSyntax
