import ClamSyntax.Proofs.Arena.Correspondence
import ClamSyntax.Proofs.Literal.Integer
import ClamSyntax.Proofs.Session.Excerpt
import ClamSyntax.Proofs.Token.Character

namespace ClamSyntax

/-- The node covers the token, which is written in digits, and holds the one value of 32 bits that
is congruent to their decimal value modulo `2 ^ 32`. -/
structure Token.Reduced (token : Token) (node : Node) : Prop where
  digits : ∀ c ∈ token.text, c.isDigit = true
  covers : node.span.start ≤ token.start ∧ token.stop ≤ node.span.stop
  value : ∃ value : Int32, node.form = .literal (.int value) ∧
    (∀ other : Int32,
      other.toInt ≡ Literal.decimalValue token.text [ZMOD 2 ^ 32] ↔ other = value) ∧
    (Literal.decimalValue token.text ≤ 2147483647 →
      value.toInt = Literal.decimalValue token.text)

private theorem Token.StoredAs.reduced {token : Token} {node : Node} (stored : token.StoredAs node)
    (integer : token.kind = .integer) (proper : token.lexeme.Proper) : token.Reduced node := by
  obtain ⟨lexeme, start⟩ := token
  obtain ⟨value, denotes, form⟩ := stored.value
  cases lexeme with
  | integer digits =>
    cases denotes
    exact ⟨proper.2, stored.covers, _, form,
      fun other => Literal.modEq_iff_eq_integer other digits, Literal.toInt_integer⟩
  | _ => cases integer

/-- What a minus behind this text is: part of a comment, one of the characters between the quotes of
a string, or an operator, for which one node alone stands: a subtraction or a negation. -/
inductive Arena.Minus (arena : Arena) (tokens : List Token) (before : List Char) : Prop
  | commented : Lexer.Commented tokens 0 before → Minus arena tokens before
  | quoted {token : Token} : token ∈ tokens → token.kind = .quoted →
      token.start < Text.size before → Text.size before + 1 < token.stop →
        Minus arena tokens before
  | operator : (Symbol.binary .sub).at (Text.size before) ∈ tokens →
      (∃! index : Nat, ∃ node, arena.get? index = some node ∧
        node.operator? = some (.binary .sub, ⟨Text.size before, Text.size before + 1⟩)) →
        Minus arena tokens before

namespace Phrase

variable {phrase : Phrase} {source : List Char} (spelled : phrase.tokens = Lexer.tokens source)
  (grammatical : phrase.Grammatical)
include spelled grammatical

theorem stored_mirrors : Mirrors (phrase.nodes 0 none) (Lexer.tokens source) := by
  rw [← spelled]
  exact phrase.mirrors 0 none grammatical (inOrder_of_spelled spelled) (by rintro _ ⟨⟩)

/-- The integers among the nodes are those of the source, one by one. -/
theorem stored_integers : List.Forall₂ Token.Reduced
    ((Lexer.tokens source).filter fun token => token.kind = .integer)
    ((phrase.nodes 0 none).filter Node.isInteger) := by
  have integers := (stored_mirrors spelled grammatical).integers
  have proper := proper_of_spelled grammatical spelled
  rw [spelled] at proper
  refine List.forall₂_iff_get.mpr ⟨integers.length_eq, fun index inside insideOther => ?_⟩
  obtain ⟨member, integer⟩ := List.mem_filter.mp (List.get_mem _ ⟨index, inside⟩)
  exact (integers.get inside insideOther).reduced (of_decide_eq_true integer) (proper _ member)

private theorem stored_minus {before after : List Char} (here : source = before ++ '-' :: after) :
    phrase.stored.Minus (Lexer.tokens source) before := by
  have proper := proper_of_spelled grammatical spelled
  rw [spelled] at proper
  rcases (Lexer.tokensFrom_tiles 0 source).holds_or_commented here rfl (by decide) with
    ⟨token, member, front, back, split, place⟩ | commented
  · change token ∈ Lexer.tokens source at member
    rw [Nat.zero_add] at place
    obtain ⟨lexeme, start⟩ := token
    rcases Lexeme.minus_of_text (proper _ member) split with ⟨rfl, rfl⟩ | ⟨quoted, inFront, behind⟩
    · obtain rfl : Text.size before = start := place
      refine .operator member ?_
      simp only [phrase.get?_stored]
      exact (stored_mirrors spelled grammatical).exists_unique_operator
        (Lexer.tokens_inOrder source) member rfl
    · have opens := Text.size_pos_of_ne_nil inFront
      have closes := Text.size_pos_of_ne_nil behind
      refine .quoted member quoted ?_ ?_
      · rw [place]
        exact Nat.lt_add_of_pos_right opens
      · have whole := congrArg Text.size split
        have width : '-'.utf8Size = 1 := rfl
        rw [Text.size_append, Text.size_cons, width] at whole
        rw [place, Token.stop, whole]
        change start + Text.size front + 1 < start + (Text.size front + (1 + Text.size back))
        omega
  · exact .commented commented

end Phrase

private theorem literal_parsed {lex : Lexeme} {value : Value} (proper : lex.Proper)
    (denotes : Literal.value? lex = some (.ok value)) :
    parse lex.text = .ok (⟨#[⟨.literal value, ⟨0, Text.size lex.text⟩⟩]⟩, 0) := by
  have whole : (⟨lex, 0⟩ : Token).span = ⟨0, Text.size lex.text⟩ :=
    congrArg (Span.mk 0) (Nat.zero_add _)
  refine parse_eq_ok_iff.mpr ⟨.literal ⟨lex, 0⟩ value, (Lexer.tokens_text proper).symm, denotes, ?_⟩
  rw [← whole]
  rfl

private theorem exists_numeral_parsed (value : Int32) (zeros : Nat) :
    ∃ digits, Lexer.IsNumeral digits ∧
      let source := List.replicate zeros '0' ++ digits
      parse source = .ok (⟨#[⟨.literal (.int value), ⟨0, Text.size source⟩⟩]⟩, 0) := by
  obtain ⟨digits, some, areDigits, rfl⟩ := Literal.exists_integer_eq value
  have numeral : (Lexeme.integer (List.replicate zeros '0' ++ digits)).Proper := by
    refine ⟨List.append_ne_nil_of_right_ne_nil _ some, List.forall_mem_append.mpr ⟨?_, areDigits⟩⟩
    intro c member
    rw [List.eq_of_mem_replicate member]
    rfl
  have denotes : Literal.value? (.integer (List.replicate zeros '0' ++ digits)) =
      Option.some (.ok (.int (Literal.integer digits))) := by
    rw [Literal.value?, Literal.integer_zeros]
  exact ⟨digits, ⟨some, areDigits⟩, literal_parsed numeral denotes⟩

/-- In an accepted source the tokens of digits and the integer literals among the nodes correspond,
from left to right. Each of these literals is the one value of 32 bits that is congruent modulo
`2 ^ 32` to the decimal value of the digits, however many there are; up to 2147483647 it is that
value. No minus belongs to them: unless it stands in a comment or in a string, it is an operator
and has a node of its own. Every value of 32 bits is that of a literal, with any number of zeros in
front. -/
theorem integer_literals_reduced :
    (∀ (source : List Char) (arena : Arena) (root : Nat), parse source = .ok (arena, root) →
      List.Forall₂ Token.Reduced
        ((Lexer.tokens source).filter fun token => token.kind = .integer)
        (arena.nodes.toList.filter Node.isInteger) ∧
      ∀ before after : List Char, source = before ++ '-' :: after →
        arena.Minus (Lexer.tokens source) before) ∧
    ∀ (value : Int32) (zeros : Nat), ∃ digits, Lexer.IsNumeral digits ∧
      let source := List.replicate zeros '0' ++ digits
      parse source = .ok (⟨#[⟨.literal (.int value), ⟨0, Text.size source⟩⟩]⟩, 0) := by
  refine ⟨fun source arena root accepted => ?_, exists_numeral_parsed⟩
  obtain ⟨phrase, spelled, grammatical, same⟩ := parse_eq_ok_iff.mp accepted
  cases same
  have nodes : phrase.stored.nodes.toList = phrase.nodes 0 none := by
    simp [Phrase.stored, Arena.append, Arena.empty]
  refine ⟨?_, fun before after here => Phrase.stored_minus spelled grammatical here⟩
  rw [nodes]
  exact Phrase.stored_integers spelled grammatical

/-- Behind the negation ten digits wrap to minus one, and behind the subtraction two zeros stand in
front of a seven. -/
theorem wrapped_difference_reduced :
    let arena : Arena := ⟨#[⟨.literal (.int (-1)), ⟨1, 11⟩⟩, ⟨.unary .negate ⟨0, 1⟩ 0, ⟨0, 11⟩⟩,
      ⟨.literal (.int 7), ⟨14, 17⟩⟩, ⟨.binary .sub ⟨12, 13⟩ 1 2, ⟨0, 17⟩⟩]⟩
    let tokens := Lexer.tokens "-4294967295 - 007".toList
    List.Forall₂ Token.Reduced (tokens.filter fun token => token.kind = .integer)
        (arena.nodes.toList.filter Node.isInteger) ∧
      ∀ before after : List Char, "-4294967295 - 007".toList = before ++ '-' :: after →
        arena.Minus tokens before := by
  intro arena tokens
  exact integer_literals_reduced.1 "-4294967295 - 007".toList _ 3 (by cbv)

end ClamSyntax
