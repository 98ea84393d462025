import ClamSyntax.Proofs.Arena.Frame
import ClamSyntax.Proofs.Token.Tiling

namespace ClamSyntax

/-- The range, made to cover the new one if it covers the inner one. -/
def Span.widen (span inner new : Span) : Span :=
  if span.start ≤ inner.start ∧ inner.stop ≤ span.stop then span.cover new else span

def Node.respan (change : Span → Span) (node : Node) : Node :=
  { node with span := change node.span }

variable {change : Span → Span}

private theorem Arena.functionNodes_respan (body : Nat) (span : Span) (params : List Name) :
    (functionNodes body span params).map (Node.respan change) =
      functionNodes body (change span) params := by
  induction params generalizing body with
  | nil => rfl
  | cons param outer ih => exact congrArg (_ :: ·) (ih (body + 1))

namespace Phrase

variable {new old : Phrase}

private theorem Frame.own_fill (frame : Frame) (change : Span → Span) (base : Nat)
    {outer : Option Span}
    (same : new.preceding = old.preceding)
    (span : (frame.fill new).span = change (frame.fill old).span)
    (fixed : ∀ span ∈ outer, change span = span) :
    (frame.fill new).own base outer =
      ((frame.fill old).own base outer).map (Node.respan change) := by
  have root : outer.getD (frame.fill new).span = change (outer.getD (frame.fill old).span) := by
    cases outer with
    | none => exact span
    | some around => exact (fixed around rfl).symm
  cases frame with
  | grouped => rfl
  | functionBody opening first more arrow =>
    simp only [fill] at span root
    simp only [fill, own, List.map_append, Arena.functionNodes_respan, root]
    simp only [span, form, same]
    rfl
  | item opening items =>
    simp only [fill] at root
    simp only [fill, own, root, form, items.roots_fill same]
    rfl
  | bound opening bindings =>
    simp only [fill] at root
    simp only [fill, own, root, form, bindings.bound_fill same, bindings.count_fill same]
    rfl
  | _ =>
    simp only [fill] at root
    simp only [fill, own, root, form, same]
    rfl

theorem nodes_eq_concat (phrase : Phrase) (base : Nat) :
    ∃ front, front.length = phrase.preceding ∧ ∀ outer : Option Span,
      phrase.nodes base outer = front ++ [⟨phrase.form base, outer.getD phrase.span⟩] := by
  cases phrase with
  | group opening body closing =>
    obtain ⟨front, length, nodes⟩ := body.nodes_eq_concat base
    exact ⟨front, length, fun outer => nodes (some (outer.getD ⟨opening, closing + 1⟩))⟩
  | literal | name => exact ⟨[], rfl, fun _ => rfl⟩
  | list _ items => exact ⟨items.nodes base, items.nodes_length base, fun _ => rfl⟩
  | letIn _ bindings _ body =>
    refine ⟨bindings.nodes base ++ body.nodes (base + bindings.count) none, ?_, fun _ => ?_⟩
    · simp [preceding]
    · simp only [nodes, List.append_assoc]
  | function opening first more arrow body =>
    refine ⟨body.nodes base none ++ Arena.functionNodes (base + body.preceding)
      (Phrase.function opening first more arrow body).span more.reverse, ?_, fun _ => ?_⟩
    · simp [preceding]
    · simp only [nodes, List.append_assoc]
  | print _ operand | unary _ _ operand =>
    exact ⟨operand.nodes base none, operand.nodes_length base none, fun _ => rfl⟩
  | conditional _ condition _ yes _ no =>
    refine ⟨condition.nodes base none ++ (yes.nodes (base + (condition.preceding + 1)) none ++
      no.nodes (base + (condition.preceding + 1 + (yes.preceding + 1))) none), ?_, fun _ => ?_⟩
    · simp [preceding]
    · simp only [nodes, List.append_assoc]
  | binary first _ _ second | application first second | subscript first _ second _ =>
    refine ⟨first.nodes base none ++ second.nodes (base + (first.preceding + 1)) none, ?_,
      fun _ => ?_⟩
    · simp [preceding]
    · simp only [nodes, List.append_assoc]

end Phrase

/-! The range of a phrase when one of its parts is put in parentheses -/

namespace Phrase

variable {path : Path} {part : Phrase}

/-- The tokens of a phrase stand within its range. -/
theorem tokens_within (inOrder : InOrder part.tokens) : ∀ token ∈ part.tokens,
    part.span.start ≤ token.start ∧ token.stop ≤ part.span.stop := by
  intro token member
  have positive := inOrder.extended token member
  obtain ⟨rest, begins⟩ := part.exists_tokens_eq_cons
  obtain ⟨front, ends⟩ := part.exists_tokens_eq_concat
  rw [span_start, span_stop]
  constructor
  · have ordered := inOrder.ordered
    have first := inOrder.extended part.first part.first_mem
    rw [begins] at member ordered
    rcases List.mem_cons.mp member with rfl | behind
    · exact Nat.le_refl _
    · exact Nat.le_trans (Nat.le_of_lt first) (List.rel_of_pairwise_cons ordered behind)
  · have ordered := inOrder.ordered
    have last := inOrder.extended part.last part.last_mem
    rw [ends] at member ordered
    rcases List.mem_append.mp member with ahead | same
    · have place := (List.pairwise_append.mp ordered).2.2 token ahead _ List.mem_cons_self
      exact Nat.le_trans place (Nat.le_of_lt last)
    · exact Nat.le_of_eq (congrArg Token.stop (List.mem_singleton.mp same))

theorem span_start_lt_stop (inOrder : InOrder part.tokens) :
    part.span.start < part.span.stop := by
  obtain ⟨start, stop⟩ := tokens_within inOrder _ part.first_mem
  have positive := inOrder.extended _ part.first_mem
  omega

theorem Path.tokens_sublist (path : Path) (part : Phrase) :
    part.tokens.Sublist (path.fill part).tokens := by
  rw [path.tokens_fill]
  exact (List.sublist_append_left ..).trans (List.sublist_append_right ..)

theorem Path.laid_out (path : Path) (inOrder : InOrder (path.fill part).tokens) :
    (∀ token ∈ path.before, token.stop ≤ part.span.start) ∧
      (∀ token ∈ part.tokens, part.span.start ≤ token.start ∧ token.stop ≤ part.span.stop) ∧
        ∀ token ∈ path.after, part.span.stop ≤ token.start := by
  have within := tokens_within (inOrder.sublist (path.tokens_sublist part))
  rw [path.tokens_fill] at inOrder
  obtain ⟨-, ordered, ahead⟩ := List.pairwise_append.mp inOrder.ordered
  have behind := (List.pairwise_append.mp ordered).2.2
  refine ⟨fun token member => ?_, within, fun token member => ?_⟩
  · rw [span_start]
    exact ahead token member _ (List.mem_append_left _ part.first_mem)
  · rw [span_stop]
    exact behind _ part.last_mem token member

private theorem first_eq_of_tokens {phrase : Phrase} {token : Token} {rest : List Token}
    (begins : phrase.tokens = token :: rest) : phrase.first = token := by
  obtain ⟨others, same⟩ := phrase.exists_tokens_eq_cons
  exact (List.cons.inj (same.symm.trans begins)).1

private theorem last_eq_of_tokens {phrase : Phrase} {token : Token} {front : List Token}
    (ends : phrase.tokens = front ++ [token]) : phrase.last = token := by
  obtain ⟨others, same⟩ := phrase.exists_tokens_eq_concat
  exact List.singleton_inj.mp (List.append_inj_right' (same.symm.trans ends) rfl)

variable {body : Phrase} {opening closing : Nat}

theorem group_laid_out (inOrder : InOrder (Phrase.group opening body closing).tokens) :
    opening + 1 ≤ body.span.start ∧ body.span.stop ≤ closing := by
  obtain ⟨ahead, -, behind⟩ := Path.laid_out (.into (.grouped opening closing) .here) inOrder
  exact ⟨ahead _ List.mem_cons_self, behind _ List.mem_cons_self⟩

private theorem Path.start_lt_after (path : Path)
    (inOrder : InOrder (path.fill (.group opening body closing)).tokens) :
    ∀ token ∈ path.after, body.span.start < token.start := by
  intro token member
  have group := inOrder.sublist (path.tokens_sublist _)
  have positive := span_start_lt_stop
    (group.sublist (Frame.tokens_sublist (.grouped opening closing) body))
  have inside := (group_laid_out group).2
  have place := (path.laid_out inOrder).2.2 token member
  change closing + 1 ≤ token.start at place
  omega

private theorem Path.start_wrap
    (inOrder : InOrder (path.fill (.group opening body closing)).tokens) :
    (path.fill (.group opening body closing)).span.start =
        min (path.fill body).span.start opening ∧
      (path.fill body).span.start ≤ body.span.start := by
  have wrapped := path.tokens_fill (.group opening body closing)
  have bare := path.tokens_fill body
  have bound := (group_laid_out (inOrder.sublist (path.tokens_sublist _))).1
  obtain ⟨rest, begins⟩ := body.exists_tokens_eq_cons
  rw [span_start] at bound
  simp only [span_start]
  cases found : path.before with
  | nil =>
    rw [found] at wrapped bare
    rw [begins] at bare
    rw [first_eq_of_tokens wrapped, first_eq_of_tokens bare]
    simp only [Symbol.at]
    omega
  | cons token before =>
    have place := (path.laid_out inOrder).1 token (by simp [found])
    have positive := inOrder.extended token (by simp [wrapped, found])
    change token.stop ≤ opening at place
    rw [found] at wrapped bare
    rw [first_eq_of_tokens wrapped, first_eq_of_tokens bare]
    omega

private theorem Path.stop_wrap
    (inOrder : InOrder (path.fill (.group opening body closing)).tokens) :
    (path.fill (.group opening body closing)).span.stop =
        max (path.fill body).span.stop (closing + 1) ∧
      body.span.stop ≤ (path.fill body).span.stop := by
  have wrapped := path.tokens_fill (.group opening body closing)
  have bare := path.tokens_fill body
  have bound := (group_laid_out (inOrder.sublist (path.tokens_sublist _))).2
  obtain ⟨front, ends⟩ := body.exists_tokens_eq_concat
  rw [span_stop] at bound
  simp only [span_stop]
  rcases List.eq_nil_or_concat path.after with found | ⟨after, token, found⟩
  · have wrappedEnds : (path.fill (.group opening body closing)).tokens =
        path.before ++ Symbol.leftParen.at opening :: body.tokens ++
          [Symbol.rightParen.at closing] := by
      rw [wrapped, found]
      simp [tokens]
    have bareEnds : (path.fill body).tokens = path.before ++ front ++ [body.last] := by
      rw [bare, found, ends]
      simp
    rw [last_eq_of_tokens wrappedEnds, last_eq_of_tokens bareEnds]
    change closing + 1 = max body.last.stop (closing + 1) ∧ body.last.stop ≤ body.last.stop
    omega
  · have place := (path.laid_out inOrder).2.2 token (by simp [found])
    have positive := inOrder.extended token (by simp [wrapped, found])
    change closing + 1 ≤ token.start at place
    rw [found, List.concat_eq_append, ← List.append_assoc, ← List.append_assoc] at wrapped bare
    rw [last_eq_of_tokens wrapped, last_eq_of_tokens bare]
    omega

private theorem Path.span_wrap
    (inOrder : InOrder (path.fill (.group opening body closing)).tokens) :
    (path.fill (.group opening body closing)).span =
      (path.fill body).span.widen body.span ⟨opening, closing + 1⟩ := by
  obtain ⟨start, starts⟩ := Path.start_wrap inOrder
  obtain ⟨stop, stops⟩ := Path.stop_wrap inOrder
  rw [Span.widen, if_pos ⟨starts, stops⟩, Span.cover, ← start, ← stop]

private theorem Frame.around_fixed (frame : Frame) {new old : Phrase} {outer : Option Span}
    (same : (frame.fill new).span = change (frame.fill old).span)
    (fixed : ∀ span ∈ outer, change span = span) :
    ∀ span ∈ frame.around outer, change span = span := by
  cases frame with
  | grouped opening closing =>
    rintro _ ⟨⟩
    cases outer with
    | none => exact same.symm
    | some span => exact fixed span rfl
  | _ => rintro _ ⟨⟩

private theorem widen_of_spells {tokens : List Token} {inner pair : Span} {node : Node}
    (spells : node.Spells tokens) (behind : ∀ token ∈ tokens, inner.start < token.start) :
    node.respan (·.widen inner pair) = node := by
  obtain ⟨first, member, last, -, same⟩ := spells node.span List.mem_cons_self
  have later : ¬ node.span.start ≤ inner.start := by
    rw [same]
    exact Nat.not_le.mpr (behind first member)
  rw [Node.respan, Span.widen, if_neg fun both => later both.1]

/-- The nodes before the root of the part stay as they are, and of the others those that
cover the part are widened. -/
theorem Path.nodes_wrap (path : Path) (base : Nat) (outer : Option Span)
    (inOrder : InOrder (path.fill (.group opening body closing)).tokens)
    (fixed : ∀ span ∈ outer, span.widen body.span ⟨opening, closing + 1⟩ = span) :
    ∃ front back : List Node, front.length = path.offset + body.preceding ∧
      (path.fill body).nodes base outer = front ++ back ∧
      (path.fill (.group opening body closing)).nodes base outer =
        front ++ back.map (Node.respan (·.widen body.span ⟨opening, closing + 1⟩)) := by
  have span := path.span_wrap inOrder
  induction path generalizing base outer with
  | here =>
    obtain ⟨front, length, nodes⟩ := body.nodes_eq_concat base
    refine ⟨front, _, by rw [length, offset, Nat.zero_add], nodes outer, ?_⟩
    have root : outer.getD ⟨opening, closing + 1⟩ =
        (outer.getD body.span).widen body.span ⟨opening, closing + 1⟩ := by
      cases outer with
      | none => exact span
      | some around => exact (fixed around rfl).symm
    exact (nodes (some (outer.getD ⟨opening, closing + 1⟩))).trans
      (by rw [Option.getD_some, root]; rfl)
  | into frame rest ih =>
    have inner : InOrder (rest.fill (.group opening body closing)).tokens :=
      inOrder.sublist (frame.tokens_sublist _)
    have same : (rest.fill (.group opening body closing)).preceding = (rest.fill body).preceding :=
      rest.preceding_fill rfl
    obtain ⟨front, back, length, bare, wrapped⟩ := ih (base + frame.offset) (frame.around outer)
      inner (frame.around_fixed span fixed) (rest.span_wrap inner)
    obtain ⟨earlier, later, ahead, spell, nodes⟩ := frame.nodes_fill (rest.fill body) base
    have own := frame.own_fill (·.widen body.span ⟨opening, closing + 1⟩) base same span fixed
    have unchanged : later.map (Node.respan (·.widen body.span ⟨opening, closing + 1⟩)) =
        later := by
      refine (List.map_congr_left fun node member => ?_).trans (List.map_id _)
      exact widen_of_spells (spell node member) fun token behind =>
        Path.start_lt_after (.into frame rest) inOrder token (List.mem_append_right _ behind)
    refine ⟨earlier ++ front, back ++ (later ++ (frame.fill (rest.fill body)).own base outer),
      ?_, ?_, ?_⟩
    · rw [List.length_append, ahead, length, offset, Nat.add_assoc]
    · rw [fill, nodes _ outer rfl, bare]
      simp only [List.append_assoc]
    · rw [fill, nodes _ outer same, wrapped, own, List.map_append, List.map_append, unchanged]
      simp only [List.append_assoc]

end Phrase

end ClamSyntax
