import ClamSyntax.Arena.Tree
import ClamSyntax.Proofs.Expr.Readability
import ClamSyntax.Proofs.Session.Parse

namespace ClamSyntax

/-- Every name among the leaves is an identifier among the tokens. -/
def NamedIn (tokens : List Token) (leaves : List Expr.Leaf) : Prop :=
  ∀ text, .name text ∈ leaves → ∃ token ∈ tokens, token.lexeme = .identifier text

namespace NamedIn

variable {tokens others : List Token} {leaves more : List Expr.Leaf}

theorem mono (named : NamedIn tokens leaves) (subset : tokens ⊆ others) :
    NamedIn others leaves := by
  intro text listed
  obtain ⟨token, member, spelled⟩ := named text listed
  exact ⟨token, subset member, spelled⟩

theorem behind (named : NamedIn tokens leaves) (front : List Token) :
    NamedIn (front ++ tokens) leaves := named.mono (List.subset_append_right ..)

theorem append (named : NamedIn tokens leaves) (namedMore : NamedIn others more) :
    NamedIn (tokens ++ others) (leaves ++ more) := by
  intro text listed
  rcases List.mem_append.mp listed with here | behind
  · exact named.mono (List.subset_append_left ..) text here
  · exact namedMore.mono (List.subset_append_right ..) text behind

theorem name (name : Name) (named : NamedIn tokens leaves) :
    NamedIn (name.token :: tokens) (.name name.text :: leaves) := by
  intro text listed
  rcases List.mem_cons.mp listed with same | behind
  · cases same
    exact ⟨name.token, List.mem_cons_self, rfl⟩
  · exact named.behind [name.token] text behind

theorem functions (params : List Name) {body : Expr} (named : NamedIn tokens body.leaves) :
    NamedIn (params.map Name.token ++ tokens) (Expr.functions params body).leaves := by
  induction params with
  | nil => exact named
  | cons param params ih => exact ih.name param

end NamedIn

mutual

private theorem Phrase.namedIn : ∀ phrase : Phrase, NamedIn phrase.tokens phrase.expr.leaves
  | .literal _ _ => by
    intro text listed
    cases List.mem_singleton.mp listed
  | .name written =>
    have none : NamedIn [] [] := nofun
    none.name written
  | .list _ items => items.namedIn.behind [_]
  | .letIn opening bindings inAt body => by
    have parts := bindings.namedIn.append (body.namedIn.behind [Symbol.kwIn.at inAt])
    exact parts.behind [_]
  | .function opening first more arrow body => by
    have inner := NamedIn.functions more (body.namedIn.behind [Symbol.arrow.at arrow])
    exact (inner.name first).behind [_]
  | .print _ operand => operand.namedIn.behind [_]
  | .conditional opening condition thenAt yes elseAt no => by
    have branches := yes.namedIn.append (no.namedIn.behind [Symbol.kwElse.at elseAt])
    exact (condition.namedIn.append (branches.behind [Symbol.kwThen.at thenAt])).behind [_]
  | .unary _ _ operand => operand.namedIn.behind [_]
  | .group _ body _ => (body.namedIn.mono (List.subset_append_left ..)).behind [_]
  | .binary left op place right =>
    left.namedIn.append (right.namedIn.behind [(Symbol.binary op).at place])
  | .application callee argument => callee.namedIn.append argument.namedIn
  | .subscript target opening index closing =>
    target.namedIn.append
      ((index.namedIn.mono (List.subset_append_left ..)).behind [Symbol.leftBracket.at opening])

theorem Items.namedIn : ∀ items : Items, NamedIn items.tokens (Expr.itemLeaves items.exprs)
  | .close _ => nofun
  | .last item closing =>
    have none : NamedIn [Symbol.rightBrace.at closing] [] := nofun
    item.namedIn.append none
  | .more item comma rest => item.namedIn.append (rest.namedIn.behind [Symbol.comma.at comma])

theorem Bindings.namedIn : ∀ bindings : Bindings,
    NamedIn bindings.tokens (Expr.bindingLeaves bindings.exprs)
  | .last bound assign value =>
    have none : NamedIn [] [] := nofun
    have inner : NamedIn (Symbol.assign.at assign :: value.tokens) (value.expr.leaves ++ []) :=
      (value.namedIn.append none).mono (by simp)
    inner.name bound
  | .more bound assign value comma rest =>
    have parts := value.namedIn.append (rest.namedIn.behind [Symbol.comma.at comma])
    (parts.behind [Symbol.assign.at assign]).name bound

end

/-- Without floats the expression is legible if its names are identifiers. -/
theorem Expr.legible_of_floatFree {expr : Expr} (floatFree : expr.FloatFree)
    (named : ∀ text, .name text ∈ expr.leaves → (Lexeme.identifier text).Proper) :
    expr.Legible := by
  intro leaf listed
  cases leaf with
  | name text => exact named text listed
  | value value =>
    cases value with
    | float number => exact floatFree number listed
    | _ => trivial

private theorem Phrase.names_proper {phrase : Phrase} {source : List Char}
    (spelled : phrase.tokens = Lexer.tokens source) :
    ∀ text, .name text ∈ phrase.expr.leaves → (Lexeme.identifier text).Proper := by
  intro text listed
  obtain ⟨token, member, lexeme⟩ := phrase.namedIn text listed
  rw [spelled] at member
  rcases Lexer.tokens_proper source token member with proper | ⟨other, invalid⟩
  · exact lexeme ▸ proper
  · cases lexeme.symm.trans invalid

private theorem Phrase.sexpr_stored (phrase : Phrase) :
    phrase.stored.sexpr phrase.preceding = .ok (String.ofList phrase.expr.sexpr) := by
  rw [Arena.sexpr, phrase.expr?_stored]
  rfl

/-- Two texts of legible expressions are equal only if the expressions are. -/
theorem Expr.sexpr_injective {first second : Expr} (legible : first.Legible)
    (legibleOther : second.Legible) (same : first.sexpr = second.sexpr) : first = second := by
  have atEnd : Text.Ends isPart [] := nofun
  exact (first.determined legible legibleOther atEnd atEnd same).1

/-- Accepted sources print trees. For trees without floats the text is made of characters of ASCII
that can be seen, and two texts are equal exactly if the trees are. -/
theorem sexpr_unambiguous {source other : List Char} {arena arenaOther : Arena}
    {root rootOther : Nat} (accepted : parse source = .ok (arena, root))
    (acceptedOther : parse other = .ok (arenaOther, rootOther)) :
    ∃ expr exprOther text textOther,
      (arena.expr? root = .ok expr ∧ arena.sexpr root = .ok text) ∧
      (arenaOther.expr? rootOther = .ok exprOther ∧
        arenaOther.sexpr rootOther = .ok textOther) ∧
      (expr.FloatFree → ∀ c ∈ text.toList, Text.isPrintableAscii c = true) ∧
      (expr.FloatFree → exprOther.FloatFree → (text = textOther ↔ expr = exprOther)) := by
  obtain ⟨phrase, spelled, -, same⟩ := parse_eq_ok_iff.mp accepted
  obtain ⟨phraseOther, spelledOther, -, sameOther⟩ := parse_eq_ok_iff.mp acceptedOther
  cases same
  cases sameOther
  refine ⟨_, _, _, _, ⟨phrase.expr?_stored, phrase.sexpr_stored⟩,
    ⟨phraseOther.expr?_stored, phraseOther.sexpr_stored⟩, fun floatFree => ?_,
    fun floatFree floatFreeOther => ⟨fun texts => ?_, fun trees => by rw [trees]⟩⟩
  · rw [String.toList_ofList]
    have legible := Expr.legible_of_floatFree floatFree (Phrase.names_proper spelled)
    exact List.all_eq_true.mp (phrase.expr.shown_write legible (by decide))
  · exact Expr.sexpr_injective
      (Expr.legible_of_floatFree floatFree (Phrase.names_proper spelled))
      (Expr.legible_of_floatFree floatFreeOther (Phrase.names_proper spelledOther))
      (String.ofList_injective texts)

/-- With and without parentheses a subtraction of a negation is one tree, printed with one text, in
which both operators are a minus. -/
theorem two_minuses_unambiguous :
    let arena : Arena := ⟨#[⟨.name "x", ⟨0, 1⟩⟩, ⟨.literal (.str "é"), ⟨5, 9⟩⟩,
      ⟨.unary .negate ⟨4, 5⟩ 1, ⟨4, 9⟩⟩, ⟨.binary .sub ⟨2, 3⟩ 0 2, ⟨0, 9⟩⟩]⟩
    let arenaOther : Arena := ⟨#[⟨.name "x", ⟨0, 1⟩⟩, ⟨.literal (.str "é"), ⟨4, 8⟩⟩,
      ⟨.unary .negate ⟨3, 4⟩ 1, ⟨2, 9⟩⟩, ⟨.binary .sub ⟨1, 2⟩ 0 2, ⟨0, 9⟩⟩]⟩
    (parse "x - -\"é\"".toList = .ok (arena, 3) ∧ parse "x-(-\"é\")".toList = .ok (arenaOther, 3)) ∧
    ∃ expr exprOther text textOther,
      (arena.expr? 3 = .ok expr ∧ arena.sexpr 3 = .ok text) ∧
      (arenaOther.expr? 3 = .ok exprOther ∧ arenaOther.sexpr 3 = .ok textOther) ∧
      (expr.FloatFree → ∀ c ∈ text.toList, Text.isPrintableAscii c = true) ∧
      (expr.FloatFree → exprOther.FloatFree → (text = textOther ↔ expr = exprOther)) := by
  intro arena arenaOther
  have accepted : parse "x - -\"é\"".toList = .ok (arena, 3) := by cbv
  have acceptedOther : parse "x-(-\"é\")".toList = .ok (arenaOther, 3) := by cbv
  exact ⟨⟨accepted, acceptedOther⟩, sexpr_unambiguous accepted acceptedOther⟩

end ClamSyntax
