import ClamSyntax.Proofs.Arena.Cells
import ClamSyntax.Proofs.Arena.Relocation
import ClamSyntax.Proofs.Phrase.Frame

namespace ClamSyntax

/-- The nodes of the form itself, without those of its operands. -/
def Phrase.own (base : Nat) (outer : Option Span) : Phrase → List Node
  | .group .. => []
  | .function opening first more arrow body =>
    Arena.functionNodes (base + body.preceding)
        (Phrase.function opening first more arrow body).span more.reverse ++
      [⟨(Phrase.function opening first more arrow body).form base,
        outer.getD (Phrase.function opening first more arrow body).span⟩]
  | phrase => [⟨phrase.form base, outer.getD phrase.span⟩]

def Items.Frame.offset : Items.Frame → Nat
  | last _ | more .. => 0
  | later item _ inner => item.preceding + 1 + inner.offset

def Bindings.Frame.offset : Bindings.Frame → Nat
  | last .. | more .. => 0
  | later _ _ value _ inner => value.preceding + 1 + inner.offset

namespace Phrase

def Frame.offset : Frame → Nat
  | .item _ items => items.offset
  | .bound _ bindings _ _ => bindings.offset
  | .letBody _ bindings _ => bindings.count
  | .thenBranch _ condition _ _ _ => condition.preceding + 1
  | .elseBranch _ condition _ yes _ => condition.preceding + 1 + (yes.preceding + 1)
  | .rightOperand left _ _ => left.preceding + 1
  | .passed callee => callee.preceding + 1
  | .position target _ _ => target.preceding + 1
  | .functionBody .. | .printed _ | .test .. | .operand .. | .grouped .. | .leftOperand ..
  | .called _ | .subscripted .. => 0

/-- The range of the parentheses around the missing operand. -/
def Frame.around (outer : Option Span) : Frame → Option Span
  | .grouped opening closing => some (outer.getD ⟨opening, closing + 1⟩)
  | _ => none

def Path.offset : Path → Nat
  | .here => 0
  | .into frame rest => frame.offset + rest.offset

def Path.around (outer : Option Span) : Path → Option Span
  | .here => outer
  | .into frame rest => rest.around (frame.around outer)

end Phrase

private theorem Items.Frame.offset_relocate (move : Nat → Nat) (frame : Items.Frame) :
    (frame.relocate move).offset = frame.offset := by
  induction frame with
  | last | more => rfl
  | later item comma inner ih => simp only [relocate, offset, item.preceding_relocate, ih]

private theorem Bindings.Frame.offset_relocate (move : Nat → Nat) (frame : Bindings.Frame) :
    (frame.relocate move).offset = frame.offset := by
  induction frame with
  | last | more => rfl
  | later name assign value comma inner ih =>
    simp only [relocate, offset, value.preceding_relocate, ih]

private theorem Phrase.Frame.offset_relocate (move : Nat → Nat) (frame : Frame) :
    (frame.relocate move).offset = frame.offset := by
  cases frame with
  | item _ items => exact items.offset_relocate move
  | bound _ bindings => exact bindings.offset_relocate move
  | _ => simp only [relocate, offset, preceding_relocate, Bindings.count_relocate]

theorem Phrase.Path.offset_relocate (move : Nat → Nat) (path : Path) :
    (path.relocate move).offset = path.offset := by
  induction path with
  | here => rfl
  | into frame rest ih => rw [relocate, offset, frame.offset_relocate, ih, offset]

/-! The nodes of a filled frame -/

section Fill

variable {new old : Phrase}

private theorem Items.Frame.count_fill (frame : Items.Frame)
    (same : new.preceding = old.preceding) :
    (frame.fill new).count = (frame.fill old).count := by
  induction frame with
  | last | more => simp only [fill, Items.count, same]
  | later item comma inner ih => simp only [fill, Items.count, ih]

theorem Items.Frame.roots_fill (frame : Items.Frame) (same : new.preceding = old.preceding)
    (base : Nat) : (frame.fill new).roots base = (frame.fill old).roots base := by
  induction frame generalizing base with
  | last | more => simp only [fill, Items.roots, same]
  | later item comma inner ih => simp only [fill, Items.roots, ih]

theorem Bindings.Frame.count_fill (frame : Bindings.Frame)
    (same : new.preceding = old.preceding) :
    (frame.fill new).count = (frame.fill old).count := by
  induction frame with
  | last | more => simp only [fill, Bindings.count, same]
  | later name assign value comma inner ih => simp only [fill, Bindings.count, ih]

theorem Bindings.Frame.bound_fill (frame : Bindings.Frame)
    (same : new.preceding = old.preceding) (base : Nat) :
    (frame.fill new).bound base = (frame.fill old).bound base := by
  induction frame generalizing base with
  | last | more => simp only [fill, Bindings.bound, same]
  | later name assign value comma inner ih => simp only [fill, Bindings.bound, ih]

private theorem Phrase.Frame.preceding_fill (frame : Frame) (same : new.preceding = old.preceding) :
    (frame.fill new).preceding = (frame.fill old).preceding := by
  cases frame with
  | item _ items => exact items.count_fill same
  | bound _ bindings => simp only [fill, preceding, bindings.count_fill same]
  | _ => simp only [fill, preceding, same]

theorem Phrase.Path.preceding_fill (path : Path) (same : new.preceding = old.preceding) :
    (path.fill new).preceding = (path.fill old).preceding := by
  induction path with
  | here => exact same
  | into frame rest ih => exact frame.preceding_fill ih

end Fill

private theorem Items.Frame.nodes_fill (frame : Items.Frame) (old : Phrase) (base : Nat) :
    ∃ earlier later : List Node, earlier.length = frame.offset ∧
      (∀ node ∈ later, node.Spells frame.after) ∧
      ∀ part : Phrase, part.preceding = old.preceding → (frame.fill part).nodes base =
        earlier ++ (part.nodes (base + frame.offset) none ++ later) := by
  induction frame generalizing base with
  | last closing =>
    exact ⟨[], [], rfl, List.forall_mem_nil _, fun part _ => (List.append_nil _).symm⟩
  | more comma rest =>
    refine ⟨[], rest.nodes (base + (old.preceding + 1)), rfl,
      rest.nodes_spell _ (List.subset_cons_self ..), fun part same => ?_⟩
    rw [← same]
    rfl
  | later item comma inner ih =>
    obtain ⟨earlier, later, length, spell, nodes⟩ := ih (base + (item.preceding + 1))
    refine ⟨item.nodes base none ++ earlier, later, by simp [length, offset], spell, ?_⟩
    intro part same
    simp only [fill, Items.nodes, nodes part same, offset, Nat.add_assoc, List.append_assoc]

private theorem Bindings.Frame.nodes_fill (frame : Bindings.Frame) (old : Phrase) (base : Nat) :
    ∃ earlier later : List Node, earlier.length = frame.offset ∧
      (∀ node ∈ later, node.Spells frame.after) ∧
      ∀ part : Phrase, part.preceding = old.preceding → (frame.fill part).nodes base =
        earlier ++ (part.nodes (base + frame.offset) none ++ later) := by
  induction frame generalizing base with
  | last name assign =>
    exact ⟨[], [], rfl, List.forall_mem_nil _, fun part _ => (List.append_nil _).symm⟩
  | more name assign comma rest =>
    refine ⟨[], rest.nodes (base + (old.preceding + 1)), rfl,
      rest.nodes_spell _ (List.subset_cons_self ..), fun part same => ?_⟩
    rw [← same]
    rfl
  | later name assign value comma inner ih =>
    obtain ⟨earlier, later, length, spell, nodes⟩ := ih (base + (value.preceding + 1))
    refine ⟨value.nodes base none ++ earlier, later, by simp [length, offset], spell, ?_⟩
    intro part same
    simp only [fill, Bindings.nodes, nodes part same, offset, Nat.add_assoc, List.append_assoc]

namespace Phrase

/-- The nodes of the missing operand are one run among those of the phrase, and those of
all other operands depend on its number of nodes only. -/
theorem Frame.nodes_fill (frame : Frame) (old : Phrase) (base : Nat) :
    ∃ earlier later : List Node, earlier.length = frame.offset ∧
      (∀ node ∈ later, node.Spells frame.after) ∧
      ∀ (part : Phrase) (outer : Option Span), part.preceding = old.preceding →
        (frame.fill part).nodes base outer =
          earlier ++ (part.nodes (base + frame.offset) (frame.around outer) ++
            (later ++ (frame.fill part).own base outer)) := by
  cases frame with
  | item opening items =>
    obtain ⟨earlier, later, length, spell, nodes⟩ := items.nodes_fill old base
    refine ⟨earlier, later, length, spell, fun part outer same => ?_⟩
    simp only [fill, Phrase.nodes, nodes part same, List.append_assoc]
    rfl
  | bound opening bindings inAt body =>
    obtain ⟨earlier, later, length, spell, nodes⟩ := bindings.nodes_fill old base
    refine ⟨earlier, later ++ body.nodes (base + (bindings.fill old).count) none, length, ?_, ?_⟩
    · refine List.forall_mem_append.mpr ⟨fun node member => ?_, body.nodes_spell_alone _ ?_⟩
      · exact (spell node member).mono (List.subset_append_left ..)
      · exact List.Subset.trans (List.subset_cons_self ..) (List.subset_append_right ..)
    · intro part outer same
      simp only [fill, Phrase.nodes, nodes part same, bindings.count_fill same, List.append_assoc]
      rfl
  | letBody opening bindings inAt =>
    exact ⟨bindings.nodes base, [], by simp [offset], List.forall_mem_nil _, fun _ _ _ => rfl⟩
  | functionBody | printed | operand => exact ⟨[], [], rfl, List.forall_mem_nil _, fun _ _ _ => rfl⟩
  | grouped => exact ⟨[], [], rfl, List.forall_mem_nil _, fun _ _ _ => (List.append_nil _).symm⟩
  | test opening thenAt yes elseAt no =>
    refine ⟨[], yes.nodes (base + (old.preceding + 1)) none ++
      no.nodes (base + (old.preceding + 1 + (yes.preceding + 1))) none, rfl, ?_, ?_⟩
    · refine List.forall_mem_append.mpr
        ⟨yes.nodes_spell_alone _ ?_, no.nodes_spell_alone _ ?_⟩
      · exact List.Subset.trans (List.subset_append_left ..) (List.subset_cons_self ..)
      · exact List.Subset.trans (List.Subset.trans (List.subset_cons_self ..)
          (List.subset_append_right ..)) (List.subset_cons_self ..)
    · intro part outer same
      rw [← same, List.append_assoc]
      rfl
  | thenBranch opening condition thenAt elseAt no =>
    refine ⟨condition.nodes base none,
      no.nodes (base + (condition.preceding + 1 + (old.preceding + 1))) none, by simp [offset],
      no.nodes_spell_alone _ (List.subset_cons_self ..), fun part outer same => ?_⟩
    rw [← same]
    rfl
  | elseBranch opening condition thenAt yes elseAt =>
    refine ⟨condition.nodes base none ++ yes.nodes (base + (condition.preceding + 1)) none, [],
      by simp [offset], List.forall_mem_nil _, fun part outer same => ?_⟩
    simp only [fill, Phrase.nodes, List.append_assoc]
    rfl
  | leftOperand op place right =>
    refine ⟨[], right.nodes (base + (old.preceding + 1)) none, rfl,
      right.nodes_spell_alone _ (List.subset_cons_self ..), fun part outer same => ?_⟩
    rw [← same]
    rfl
  | rightOperand left op place =>
    exact ⟨left.nodes base none, [], by simp [offset], List.forall_mem_nil _, fun _ _ _ => rfl⟩
  | called argument =>
    refine ⟨[], argument.nodes (base + (old.preceding + 1)) none, rfl,
      argument.nodes_spell_alone _ (List.Subset.refl _), fun part outer same => ?_⟩
    rw [← same]
    rfl
  | passed callee =>
    exact ⟨callee.nodes base none, [], by simp [offset], List.forall_mem_nil _, fun _ _ _ => rfl⟩
  | subscripted opening index closing =>
    refine ⟨[], index.nodes (base + (old.preceding + 1)) none, rfl,
      index.nodes_spell_alone _ ?_, fun part outer same => ?_⟩
    · exact List.Subset.trans (List.subset_append_left ..) (List.subset_cons_self ..)
    · rw [← same]
      rfl
  | position target opening closing =>
    exact ⟨target.nodes base none, [], by simp [offset], List.forall_mem_nil _, fun _ _ _ => rfl⟩

private theorem Path.nodes_fill (path : Path) (part : Phrase) (base : Nat) (outer : Option Span) :
    ∃ front back : List Node, front.length = path.offset ∧ (path.fill part).nodes base outer =
      front ++ (part.nodes (base + path.offset) (path.around outer) ++ back) := by
  induction path generalizing base outer with
  | here => exact ⟨[], [], rfl, (List.append_nil _).symm⟩
  | into frame rest ih =>
    obtain ⟨front, back, length, nodes⟩ := ih (base + frame.offset) (frame.around outer)
    obtain ⟨earlier, later, ahead, -, filled⟩ := frame.nodes_fill (rest.fill part) base
    refine ⟨earlier ++ front, back ++ (later ++ (frame.fill (rest.fill part)).own base outer),
      by rw [List.length_append, ahead, length, offset], ?_⟩
    rw [fill, filled _ outer rfl, nodes]
    simp only [offset, around, Nat.add_assoc, List.append_assoc]

theorem Path.holds_part {path : Path} {part : Phrase} {arena : Arena} {base : Nat}
    {outer : Option Span} (holds : arena.Holds base ((path.fill part).nodes base outer)) :
    arena.Holds (base + path.offset) (part.nodes (base + path.offset) (path.around outer)) := by
  obtain ⟨front, back, length, nodes⟩ := path.nodes_fill part base outer
  rw [nodes, Arena.holds_append, Arena.holds_append, length] at holds
  exact holds.2.1

end Phrase

/-! Every cell stands in a path -/

private theorem Items.exists_frame : ∀ (items : Items) (base : Nat), ∀ cell ∈ items.cells base,
    ∃ frame : Items.Frame, items = frame.fill cell.phrase ∧ cell.base = base + frame.offset ∧
      cell.outer = none
  | .close _, _ => nofun
  | .last _ closing, _ => List.forall_mem_singleton.mpr ⟨.last closing, rfl, rfl, rfl⟩
  | .more item comma rest, base => by
    refine List.forall_mem_cons.mpr ⟨⟨.more comma rest, rfl, rfl, rfl⟩, fun cell member => ?_⟩
    obtain ⟨frame, same, place, bare⟩ := rest.exists_frame _ cell member
    exact ⟨.later item comma frame, congrArg (Items.more item comma) same,
      place.trans (Nat.add_assoc ..), bare⟩

private theorem Bindings.exists_frame : ∀ (bindings : Bindings) (base : Nat),
    ∀ cell ∈ bindings.cells base, ∃ frame : Bindings.Frame, bindings = frame.fill cell.phrase ∧
      cell.base = base + frame.offset ∧ cell.outer = none
  | .last name assign _, _ => List.forall_mem_singleton.mpr ⟨.last name assign, rfl, rfl, rfl⟩
  | .more name assign value comma rest, base => by
    refine List.forall_mem_cons.mpr
      ⟨⟨.more name assign comma rest, rfl, rfl, rfl⟩, fun cell member => ?_⟩
    obtain ⟨frame, same, place, bare⟩ := rest.exists_frame _ cell member
    exact ⟨.later name assign value comma frame,
      congrArg (Bindings.more name assign value comma) same, place.trans (Nat.add_assoc ..), bare⟩

namespace Cell

private theorem exists_frame (cell : Cell) : ∀ child ∈ cell.children, ∃ frame : Phrase.Frame,
    cell.phrase = frame.fill child.phrase ∧ child.base = cell.base + frame.offset ∧
      child.outer = frame.around cell.outer := by
  obtain ⟨base, outer, phrase⟩ := cell
  cases phrase with
  | literal | name => exact List.forall_mem_nil _
  | list opening items =>
    intro child member
    obtain ⟨frame, same, place, bare⟩ := items.exists_frame base child member
    exact ⟨.item opening frame, congrArg (Phrase.list opening) same, place, bare⟩
  | letIn opening bindings inAt body =>
    refine List.forall_mem_append.mpr
      ⟨fun child member => ?_, List.forall_mem_singleton.mpr ?_⟩
    · obtain ⟨frame, same, place, bare⟩ := bindings.exists_frame base child member
      exact ⟨.bound opening frame inAt body, congrArg (Phrase.letIn opening · inAt body) same,
        place, bare⟩
    · exact ⟨.letBody opening bindings inAt, rfl, rfl, rfl⟩
  | function opening first more arrow body =>
    exact List.forall_mem_singleton.mpr ⟨.functionBody opening first more arrow, rfl, rfl, rfl⟩
  | print opening operand =>
    exact List.forall_mem_singleton.mpr ⟨.printed opening, rfl, rfl, rfl⟩
  | conditional opening condition thenAt yes elseAt no =>
    simp only [children, List.forall_mem_cons]
    exact ⟨⟨.test opening thenAt yes elseAt no, rfl, rfl, rfl⟩,
      ⟨.thenBranch opening condition thenAt elseAt no, rfl, rfl, rfl⟩,
      ⟨.elseBranch opening condition thenAt yes elseAt, rfl, rfl, rfl⟩, List.forall_mem_nil _⟩
  | unary op opening operand =>
    exact List.forall_mem_singleton.mpr ⟨.operand op opening, rfl, rfl, rfl⟩
  | group opening body closing =>
    exact List.forall_mem_singleton.mpr ⟨.grouped opening closing, rfl, rfl, rfl⟩
  | binary left op place right =>
    exact List.forall_mem_cons.mpr ⟨⟨.leftOperand op place right, rfl, rfl, rfl⟩,
      List.forall_mem_singleton.mpr ⟨.rightOperand left op place, rfl, rfl, rfl⟩⟩
  | application callee argument =>
    exact List.forall_mem_cons.mpr ⟨⟨.called argument, rfl, rfl, rfl⟩,
      List.forall_mem_singleton.mpr ⟨.passed callee, rfl, rfl, rfl⟩⟩
  | subscript target opening index closing =>
    exact List.forall_mem_cons.mpr ⟨⟨.subscripted opening index closing, rfl, rfl, rfl⟩,
      List.forall_mem_singleton.mpr ⟨.position target opening closing, rfl, rfl, rfl⟩⟩

theorem Within.exists_path {part whole : Cell} (within : part.Within whole) :
    ∃ path : Phrase.Path, whole.phrase = path.fill part.phrase ∧
      part.base = whole.base + path.offset ∧ part.outer = path.around whole.outer := by
  induction within with
  | here => exact ⟨.here, rfl, rfl, rfl⟩
  | @child whole cell member _ ih =>
    obtain ⟨frame, filled, place, around⟩ := whole.exists_frame cell member
    obtain ⟨rest, same, inner, outer⟩ := ih
    refine ⟨.into frame rest, ?_, ?_, ?_⟩
    · rw [filled, same, Phrase.Path.fill]
    · rw [inner, place, Nat.add_assoc, Phrase.Path.offset]
    · rw [outer, around, Phrase.Path.around]

end Cell

namespace Phrase

/-- The innermost frame of the path is not a pair of parentheses. -/
inductive Path.EndsBare : Path → Prop
  | last {frame : Frame} : (∀ outer, frame.around outer = none) → EndsBare (.into frame .here)
  | into {frame : Frame} {rest : Path} : EndsBare rest → EndsBare (.into frame rest)

theorem Path.EndsBare.around {path : Path} (bare : path.EndsBare) (outer : Option Span) :
    path.around outer = none := by
  induction bare generalizing outer with
  | last alone => exact alone outer
  | into _ ih => exact ih _

/-- With the parentheses around it a part stands in none. -/
theorem Path.exists_bare (path : Path) (part : Phrase) : ∃ (bare : Path) (wider : Phrase),
    bare.fill wider = path.fill part ∧ bare.offset = path.offset ∧
      wider.preceding = part.preceding ∧ (part.Grammatical → wider.Grammatical) ∧
      (∀ base outer, wider.nodes base (bare.around outer) = part.nodes base (path.around outer)) ∧
      (bare = .here ∨ bare.EndsBare) := by
  induction path with
  | here => exact ⟨.here, part, rfl, rfl, rfl, id, fun _ _ => rfl, .inl rfl⟩
  | into frame rest ih =>
    obtain ⟨bare, wider, filled, place, same, grammatical, nodes, alone⟩ := ih
    rcases alone with rfl | alone
    · cases frame with
      | grouped opening closing =>
        refine ⟨.here, .group opening wider closing, ?_, ?_, same, grammatical, ?_, .inl rfl⟩
        · exact congrArg (Phrase.group opening · closing) filled
        · exact place.trans (Nat.zero_add _).symm
        · exact fun base outer => nodes base _
      | _ =>
        refine ⟨.into _ .here, wider, ?_, ?_, same, grammatical, fun base outer => nodes base _,
          .inr (.last fun _ => rfl)⟩
        · rw [fill, filled, fill]
        · rw [offset, place, offset]
    · refine ⟨.into frame bare, wider, ?_, ?_, same, grammatical, fun base outer => nodes base _,
        .inr (.into alone)⟩
      · rw [fill, filled, fill]
      · rw [offset, place, offset]

end Phrase

end ClamSyntax
