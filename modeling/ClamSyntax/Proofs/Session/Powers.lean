import ClamSyntax.Proofs.Parser.Powers
import ClamSyntax.Proofs.Session.Consumption
import ClamSyntax.Proofs.Session.Precedence
import Mathlib.Logic.Relation

namespace ClamSyntax

/-- The node at the first position begins with the child at the second: the left operand of an
operation, the function that is called, or what is subscripted. -/
def Arena.BeginsWith (arena : Arena) (index child : Nat) : Prop :=
  ∃ node, arena.get? index = some node ∧ node.form.first? = some child

namespace Phrase

private theorem nodes_prefix_of_mem_leftSpine {part whole : Phrase} (inner : part ∈ whole.leftSpine)
    (base : Nat) : part.nodes base none <+: whole.nodes base none := by
  cases whole with
  | binary operand | application operand | subscript operand =>
    rcases List.mem_cons.mp inner with rfl | deeper
    · exact List.prefix_refl _
    · exact (nodes_prefix_of_mem_leftSpine deeper base).trans (List.prefix_append ..)
  | _ =>
    obtain rfl := List.mem_singleton.mp inner
    exact List.prefix_refl _

private theorem beginsWith_of_mem_leftSpine {arena : Arena} {base : Nat} {part whole : Phrase}
    (inner : part ∈ whole.leftSpine) (holds : arena.Holds base (whole.nodes base none)) :
    Relation.ReflTransGen arena.BeginsWith (base + whole.preceding) (base + part.preceding) := by
  have root := whole.root_of_holds holds
  cases whole with
  | binary operand | application operand | subscript operand =>
    rcases List.mem_cons.mp inner with rfl | deeper
    · exact .refl
    · exact .head ⟨_, root, rfl⟩
        (beginsWith_of_mem_leftSpine deeper (Arena.holds_append.mp holds).1)
  | _ =>
    obtain rfl := List.mem_singleton.mp inner
    exact .refl

end Phrase

private theorem Session.accept_begins (session : Session) {part whole : Phrase}
    (inner : part ∈ whole.leftSpine) (rest others : List Token) :
    let early := (session.accept part others).session.arena
    let late := (session.accept whole rest).session.arena
    early.nodes.toList <+: late.nodes.toList ∧
      Relation.ReflTransGen late.BeginsWith (whole.store session.arena none).root
        (part.store session.arena none).root := by
  simp only [Session.accept, Phrase.store_eq]
  obtain ⟨later, begins⟩ := Phrase.nodes_prefix_of_mem_leftSpine inner session.arena.size
  exact ⟨⟨later, by simp [Arena.append, ← begins]⟩,
    Phrase.beginsWith_of_mem_leftSpine inner (Arena.append_holds session.arena _)⟩

/-- Of two powers the higher one cuts the reading of an expression earlier, in any session. Where
it fails, the lower one gives the same answer. Where both succeed, the higher one leaves all
tokens that the lower one leaves, its store begins the other store, and its root is found from
the other root by following first operands; and if it leaves no more, the answers are equal. -/
theorem higher_power_cuts (session : Session) {low high : Nat} (lower : low ≤ high) :
    let early := session.expression high
    let late := session.expression low
    (∀ error, early.result = .error error → late = early) ∧
    ∀ cut root, early.result = .ok cut → late.result = .ok root →
      early.session.rest <:+ session.rest ∧ late.session.rest <:+ early.session.rest ∧
      early.session.arena.nodes.toList <+: late.session.arena.nodes.toList ∧
      Relation.ReflTransGen late.session.arena.BeginsWith root cut ∧
      (early.session.rest.length = late.session.rest.length → late = early) := by
  intro early late
  have within : early.session.rest <:+ session.rest :=
    session.answer_rest_suffix (.expression high)
  simp only [early, late, Session.expression] at within ⊢
  cases cuts : Parser.expression high session.rest with
  | failed failure =>
    rw [Parser.expression_failed_of_le lower cuts]
    refine ⟨fun _ _ => rfl, fun cut root succeeds => ?_⟩
    cases succeeds
  | read cut rest shorter =>
    rw [cuts] at within
    refine ⟨fun error fails => (by cases fails), fun cutRoot wholeRoot succeeds => ?_⟩
    cases succeeds
    cases reads : Parser.expression low session.rest with
    | failed failure =>
      intro succeeds
      cases succeeds
    | read whole rest₁ shorter₁ =>
      obtain ⟨inner, more, taken, same⟩ := Parser.exists_more_of_le lower cuts reads
      intro succeeds
      cases succeeds
      have begins := session.accept_begins inner rest₁ rest
      refine ⟨within, ⟨more, taken.symm⟩, begins.1, begins.2, fun equal => ?_⟩
      have none : more = [] := by
        simp only [Session.accept, taken, List.length_append] at equal
        exact List.length_eq_zero_iff.mp (by omega)
      obtain rfl : rest = rest₁ := by rw [taken, none, List.nil_append]
      obtain rfl : whole = cut := same none
      rfl

/-- At the power of a right summand a sum is cut behind the product with which it begins. -/
theorem product_cut_from_sum :
    let early := (Session.ofSource "a*(b)[i]+c".toList).expression 11
    let late := (Session.ofSource "a*(b)[i]+c".toList).expression 0
    late.session.rest <:+ early.session.rest ∧
    early.session.arena.nodes.toList <+: late.session.arena.nodes.toList ∧
    Relation.ReflTransGen late.session.arena.BeginsWith 6 4 := by
  have cuts := (higher_power_cuts (Session.ofSource "a*(b)[i]+c".toList) (Nat.zero_le 11)).2 4 6
    (by cbv) (by cbv)
  exact ⟨cuts.2.1, cuts.2.2.1, cuts.2.2.2.1⟩

end ClamSyntax
