import ClamSyntax.Bytecode.Opcode
import ClamSyntax.Proofs.Session.Excerpt

namespace ClamSyntax

/-- A lexeme of which a form was made, with its range where the form keeps that. -/
structure Mention where
  lexeme : Lexeme
  range? : Option Span

def LetBinding.mention (binding : LetBinding) : Mention :=
  ⟨.identifier binding.name, some binding.span⟩

/-- The operator or the names of a form. -/
def Form.mentions : Form → List Mention
  | .name text | .function text _ => [⟨.identifier text, none⟩]
  | .letIn bindings _ => bindings.map LetBinding.mention
  | .unary op place _ => [⟨.symbol op.symbol, some place⟩]
  | .binary op place _ _ => [⟨.symbol (.binary op), some place⟩]
  | _ => []

/-- One of the tokens has the lexeme that is mentioned, and the range. -/
def Mention.IsIn (tokens : List Token) (mention : Mention) : Prop :=
  ∃ token ∈ tokens, token.lexeme = mention.lexeme ∧ ∀ range ∈ mention.range?, token.span = range

namespace Mention.IsIn

variable {tokens others : List Token} {mention : Mention}

theorem of_token (token : Token) (member : token ∈ tokens) :
    IsIn tokens ⟨token.lexeme, some token.span⟩ :=
  ⟨token, member, rfl, fun _ same => Option.some.inj same⟩

theorem of_lexeme (token : Token) (member : token ∈ tokens) : IsIn tokens ⟨token.lexeme, none⟩ :=
  ⟨token, member, rfl, nofun⟩

theorem mono (cited : mention.IsIn tokens) (subset : tokens ⊆ others) : mention.IsIn others := by
  obtain ⟨token, member, cites⟩ := cited
  exact ⟨token, subset member, cites⟩

end Mention.IsIn

private theorem Bindings.mention_isIn : ∀ (bindings : Bindings) (base : Nat),
    ∀ binding ∈ bindings.bound base, binding.mention.IsIn bindings.tokens
  | .last name _ _, _ =>
    List.forall_mem_singleton.mpr (.of_token name.token List.mem_cons_self)
  | .more name assign value comma rest, base => by
    have here : Mention.IsIn (Bindings.more name assign value comma rest).tokens
        ⟨name.token.lexeme, some name.token.span⟩ := .of_token name.token List.mem_cons_self
    have behind : rest.tokens ⊆ (Bindings.more name assign value comma rest).tokens := by
      intro token member
      simp [tokens, member]
    refine List.forall_mem_cons.mpr ⟨here, fun binding listed => ?_⟩
    exact (rest.mention_isIn _ binding listed).mono behind

private theorem Phrase.mentions_isIn : ∀ (phrase : Phrase) (base : Nat),
    ∀ mention ∈ (phrase.form base).mentions, mention.IsIn phrase.tokens
  | .literal .., _ | .list .., _ | .print .., _ | .conditional .., _ | .application .., _
  | .subscript .., _ => nofun
  | .name written, _ => List.forall_mem_singleton.mpr
    (.of_lexeme written.token List.mem_cons_self)
  | .letIn opening bindings inAt body, base => by
    refine List.forall_mem_map.mpr fun binding listed => ?_
    refine (bindings.mention_isIn base binding listed).mono fun token member => ?_
    exact List.mem_cons_of_mem _ (List.mem_append_left _ member)
  | .function opening first more arrow body, _ =>
    List.forall_mem_singleton.mpr
      (.of_lexeme first.token (List.mem_cons_of_mem _ List.mem_cons_self))
  | .unary op opening operand, _ =>
    List.forall_mem_singleton.mpr (.of_token (op.symbol.at opening) List.mem_cons_self)
  | .group opening body closing, base => by
    intro mention listed
    refine (body.mentions_isIn base mention listed).mono fun token member => ?_
    exact List.mem_cons_of_mem _ (List.mem_append_left _ member)
  | .binary left op place right, _ =>
    List.forall_mem_singleton.mpr
      (.of_token ((Symbol.binary op).at place) (List.mem_append_right _ List.mem_cons_self))

private theorem Phrase.exists_mentioned {phrase : Phrase} {index : Nat} {node : Node}
    (grammatical : phrase.Grammatical) (inOrder : InOrder phrase.tokens)
    (found : phrase.stored.get? index = some node) :
    ∀ mention ∈ node.form.mentions, ∃ token ∈ phrase.tokens,
      (node.span.start ≤ token.start ∧ token.stop ≤ node.span.stop) ∧
      token.lexeme = mention.lexeme ∧ ∀ range ∈ mention.range?, token.span = range := by
  obtain ⟨path, part, rfl, -, span, place⟩ := phrase.exists_path grammatical found
  have sublist := path.tokens_sublist part
  intro mention listed
  have inPart : mention.IsIn part.tokens := by
    rcases place with ⟨rfl, -⟩ | ⟨opening, first, more, arrow, body, rfl, low, high⟩
    · cases found.symm.trans (part.root_of_holds (path.storedIn part))
      exact part.mentions_isIn _ mention listed
    · obtain ⟨param, member, inner, range, here⟩ :=
        Cell.exists_param (path.storedIn _) rfl low high
      cases found.symm.trans here
      cases List.mem_singleton.mp listed
      refine .of_lexeme param.token ?_
      simp [tokens, List.mem_map_of_mem member]
  obtain ⟨token, member, cites⟩ := inPart
  rw [span]
  exact ⟨token, sublist.subset member, tokens_within (inOrder.sublist sublist) token member, cites⟩

/-- The instruction has the tag for its word, and is read back from it. -/
def Opcode.Encodes (opcode : Opcode) (tag : Nat) : Prop :=
  opcode.word.toNat = tag ∧ Opcode.ofWord? opcode.word = some opcode

private theorem BinaryOp.encodes_tag (op : BinaryOp) : (Opcode.binary op).Encodes op.tag :=
  ⟨by cases op <;> rfl, Opcode.ofWord?_word _⟩

private theorem UnaryOp.encodes_tag (op : UnaryOp) : (Opcode.unary op).Encodes op.tag :=
  ⟨by cases op <;> rfl, Opcode.ofWord?_word _⟩

private theorem UnaryOp.spelling_symbol (op : UnaryOp) : op.symbol.spelling = op.spelling := by
  cases op <;> rfl

namespace Token

variable {source : List Char} {range : Span}

/-- The token is one of the source, in a range, and the source has the text there. -/
structure Writes (source : List Char) (range : Span) (text : String) (token : Token) : Prop where
  member : token ∈ Lexer.tokens source
  inside : range.start ≤ token.start ∧ token.stop ≤ range.stop
  slice : Text.slice? source token.span = some text.toList

/-- The token is an identifier of the source, and no keyword. -/
structure Names (source : List Char) (range : Span) (name : String) (token : Token) : Prop
    extends token.Writes source range name where
  lexeme : token.lexeme = .identifier name
  proper : (Lexeme.identifier name).Proper

theorem writes_of_lexeme {token : Token} {lexeme : Lexeme} {text : String}
    (member : token ∈ Lexer.tokens source)
    (inside : range.start ≤ token.start ∧ token.stop ≤ range.stop)
    (same : token.lexeme = lexeme) (spelled : lexeme.text = text.toList) :
    token.Writes source range text where
  member := member
  inside := inside
  slice := by
    rw [((Lexer.tokensFrom_tiles 0 source).marks token member).slice, Token.text, same, spelled]

private theorem names_of_lexeme {token : Token} {name : String}
    (member : token ∈ Lexer.tokens source)
    (inside : range.start ≤ token.start ∧ token.stop ≤ range.stop)
    (same : token.lexeme = .identifier name) : token.Names source range name where
  toWrites := writes_of_lexeme member inside same rfl
  lexeme := same
  proper := by
    rcases Lexer.tokens_proper source token member with proper | ⟨text, invalid⟩
    · exact same ▸ proper
    · cases same.symm.trans invalid

end Token

/-- What a form says of its operator or its names is what the source has in the range. -/
def Form.Faithful (source : List Char) (range : Span) : Form → Prop
  | .binary op place _ _ =>
    ∃ token : Token, token.Writes source range op.spelling ∧ token.span = place ∧
      token.kind.binaryOp? = some op ∧ token.kind.tag = op.tag ∧ (Opcode.binary op).Encodes op.tag
  | .unary op place _ =>
    ∃ token : Token, token.Writes source range op.spelling ∧ token.span = place ∧
      token.kind.unaryOp? = some op ∧ (Opcode.unary op).Encodes op.tag ∧
      match op with
      | .not => token.kind.tag = op.tag
      | .negate => token.kind = .symbol (.binary .sub)
  | .letIn bindings _ =>
    ∀ binding ∈ bindings, ∃ token : Token, token.Names source range binding.name ∧
      token.span = binding.span
  | .name text | .function text _ => ∃ token : Token, token.Names source range text
  | _ => True

/-- The operators and the names of the tree are those of the source. An operator is a token in the
range of its node, at the place that the node keeps and with the spelling of the operator. Token,
operator and instruction have one tag, only the minus of a negation has that of the subtraction. A
name is an identifier in the range of its node, at the place that a binding keeps, and no
keyword. -/
theorem accepted_faithful {source : List Char} {arena : Arena} {root index : Nat} {node : Node}
    (accepted : parse source = .ok (arena, root)) (found : arena.get? index = some node) :
    node.form.Faithful source node.span := by
  obtain ⟨phrase, spelled, grammatical, same⟩ := parse_eq_ok_iff.mp accepted
  cases same
  have mentioned := phrase.exists_mentioned grammatical (Phrase.inOrder_of_spelled spelled) found
  rw [spelled] at mentioned
  cases form : node.form with
  | binary op place left right =>
    rw [form] at mentioned
    obtain ⟨token, member, inside, lexeme, range⟩ := mentioned _ (List.mem_singleton_self _)
    have kind : token.kind = .symbol (.binary op) := congrArg Lexeme.kind lexeme
    refine ⟨token, Token.writes_of_lexeme member inside lexeme rfl, range place rfl, ?_⟩
    rw [kind]
    exact ⟨rfl, rfl, op.encodes_tag⟩
  | unary op place operand =>
    rw [form] at mentioned
    obtain ⟨token, member, inside, lexeme, range⟩ := mentioned _ (List.mem_singleton_self _)
    have kind : token.kind = .symbol op.symbol := congrArg Lexeme.kind lexeme
    have writes := Token.writes_of_lexeme member inside lexeme
      (congrArg String.toList op.spelling_symbol)
    refine ⟨token, writes, range place rfl, ?_⟩
    rw [kind]
    cases op with
    | not => exact ⟨rfl, UnaryOp.encodes_tag .not, rfl⟩
    | negate => exact ⟨rfl, UnaryOp.encodes_tag .negate, rfl⟩
  | letIn bindings body =>
    rw [form] at mentioned
    intro binding listed
    obtain ⟨token, member, inside, lexeme, range⟩ :=
      mentioned _ (List.mem_map_of_mem listed)
    exact ⟨token, Token.names_of_lexeme member inside lexeme, range binding.span rfl⟩
  | name text | function text body =>
    rw [form] at mentioned
    obtain ⟨token, member, inside, lexeme, -⟩ := mentioned _ (List.mem_singleton_self _)
    exact ⟨token, Token.names_of_lexeme member inside lexeme⟩
  | _ => trivial

/-- In `fun x y => x - -y` one minus is a subtraction and the other a negation, and the second
parameter is named in the function. -/
theorem two_minuses_faithful :
    let source := "fun x y => x - -y".toList
    let arena : Arena := ⟨#[⟨.name "x", ⟨11, 12⟩⟩, ⟨.name "y", ⟨16, 17⟩⟩,
      ⟨.unary .negate ⟨15, 16⟩ 1, ⟨15, 17⟩⟩, ⟨.binary .sub ⟨13, 14⟩ 0 2, ⟨11, 17⟩⟩,
      ⟨.function "y" 3, ⟨0, 17⟩⟩, ⟨.function "x" 4, ⟨0, 17⟩⟩]⟩
    parse source = .ok (arena, 5) ∧
      (Form.unary .negate ⟨15, 16⟩ 1).Faithful source ⟨15, 17⟩ ∧
      (Form.binary .sub ⟨13, 14⟩ 0 2).Faithful source ⟨11, 17⟩ ∧
      (Form.function "y" 3).Faithful source ⟨0, 17⟩ := by
  intro source arena
  have accepted : parse "fun x y => x - -y".toList = .ok (arena, 5) := by cbv
  have negation : arena.get? 2 = some ⟨.unary .negate ⟨15, 16⟩ 1, ⟨15, 17⟩⟩ := rfl
  have subtraction : arena.get? 3 = some ⟨.binary .sub ⟨13, 14⟩ 0 2, ⟨11, 17⟩⟩ := rfl
  have inner : arena.get? 4 = some ⟨.function "y" 3, ⟨0, 17⟩⟩ := rfl
  have first := accepted_faithful accepted negation
  have second := accepted_faithful accepted subtraction
  have third := accepted_faithful accepted inner
  exact ⟨accepted, first, second, third⟩

end ClamSyntax
