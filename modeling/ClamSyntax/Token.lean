import ClamSyntax.Operator
import ClamSyntax.Text.Utf8

/-! Tokens. A lexeme is what a token says: a symbol of fixed spelling, or a text of
one of the open classes. A token is a lexeme at a byte offset; its kind is the
lexeme without the text. -/

namespace ClamSyntax

/-- A token of fixed spelling: keyword, punctuation or operator. -/
inductive Symbol where
  | kwLet | kwIn | kwFun | kwIf | kwThen | kwElse | kwPrint | kwTrue | kwFalse | kwUnit
  | assign | arrow | leftParen | rightParen | leftBracket | rightBracket
  | leftBrace | rightBrace | comma
  | binary (op : BinaryOp)
  | kwNot
  deriving DecidableEq, Repr

namespace Symbol

def spelling : Symbol → String
  | kwLet => "let"
  | kwIn => "in"
  | kwFun => "fun"
  | kwIf => "if"
  | kwThen => "then"
  | kwElse => "else"
  | kwPrint => "print"
  | kwTrue => "true"
  | kwFalse => "false"
  | kwUnit => "unit"
  | assign => "="
  | arrow => "=>"
  | leftParen => "("
  | rightParen => ")"
  | leftBracket => "["
  | rightBracket => "]"
  | leftBrace => "\x7b"
  | rightBrace => "\x7d"
  | comma => ","
  | binary op => op.spelling
  | kwNot => UnaryOp.not.spelling

def keywords : List Symbol :=
  [kwLet, kwIn, kwFun, kwIf, kwThen, kwElse, kwPrint, kwTrue, kwFalse, kwUnit,
    kwNot, binary .and, binary .or]

/-- The symbols that are written in punctuation, longer spellings first, so that the
first one found at a place is the longest. -/
def marks : List Symbol :=
  [binary .pipe, binary .append, binary .concat, binary .eq, binary .ne, binary .le,
    binary .ge, arrow,
    leftParen, rightParen, leftBracket, rightBracket, leftBrace, rightBrace, comma,
    assign, binary .add, binary .sub, binary .mul, binary .div, binary .mod,
    binary .lt, binary .gt]

theorem mem_keywords_or_marks (symbol : Symbol) : symbol ∈ keywords ∨ symbol ∈ marks := by
  cases symbol with
  | binary op => cases op <;> decide
  | _ => decide

end Symbol

/-- The class of a token. -/
inductive TokenKind where
  | symbol (fixed : Symbol)
  | integer | decimal | quoted | identifier
  | invalid | endOfInput
  deriving DecidableEq, Repr

namespace TokenKind

/-- How messages and listings call the class: a symbol by its spelling. -/
def text : TokenKind → String
  | symbol fixed => fixed.spelling
  | integer => "integer literal"
  | decimal => "float literal"
  | quoted => "string literal"
  | identifier => "identifier"
  | invalid => "invalid token"
  | endOfInput => "EOF"

/-- The number of the class; an operator's token carries the operator's tag. -/
def tag : TokenKind → Nat
  | symbol .kwLet => 0
  | symbol .kwIn => 1
  | symbol .kwFun => 2
  | symbol .kwIf => 3
  | symbol .kwThen => 4
  | symbol .kwElse => 5
  | symbol .kwPrint => 6
  | symbol .kwTrue => 7
  | symbol .kwFalse => 8
  | symbol .kwUnit => 9
  | integer => 10
  | decimal => 11
  | quoted => 12
  | identifier => 13
  | symbol .assign => 14
  | symbol .arrow => 15
  | symbol .leftParen => 16
  | symbol .rightParen => 17
  | symbol .leftBracket => 18
  | symbol .rightBracket => 19
  | symbol .leftBrace => 20
  | symbol .rightBrace => 21
  | symbol .comma => 22
  | invalid => 23
  | endOfInput => 24
  | symbol (.binary op) => op.tag
  | symbol .kwNot => UnaryOp.not.tag

def binaryOp? : TokenKind → Option BinaryOp
  | symbol (.binary op) => some op
  | _ => none

def unaryOp? : TokenKind → Option UnaryOp
  | symbol .kwNot => some .not
  | symbol (.binary .sub) => some .negate
  | _ => none

/-- Whether the token, after a finished operand, begins the argument of an
application. The prefix `-` does not: after an operand it is always subtraction. -/
def opensTerm : TokenKind → Bool
  | integer | decimal | quoted | identifier => true
  | symbol .kwUnit | symbol .kwTrue | symbol .kwFalse => true
  | symbol .leftParen | symbol .leftBrace => true
  | symbol .kwLet | symbol .kwFun | symbol .kwIf | symbol .kwPrint | symbol .kwNot => true
  | _ => false

/-- Whether the token ends an expression without being part of it. -/
def terminates : TokenKind → Bool
  | symbol .rightParen | symbol .rightBracket | symbol .rightBrace | symbol .comma => true
  | symbol .kwIn | symbol .kwThen | symbol .kwElse => true
  | endOfInput => true
  | _ => false

end TokenKind

/-- What a token says. The open classes carry their text: `quoted` what stands
between the quotes, escapes unresolved. -/
inductive Lexeme where
  | symbol (fixed : Symbol)
  | integer (digits : List Char)
  | decimal (whole fraction : List Char)
  | quoted (body : List Char)
  | identifier (name : String)
  | invalid (text : List Char)
  | endOfInput
  deriving DecidableEq, Repr

namespace Lexeme

def kind : Lexeme → TokenKind
  | symbol fixed => .symbol fixed
  | integer _ => .integer
  | decimal _ _ => .decimal
  | quoted _ => .quoted
  | identifier _ => .identifier
  | invalid _ => .invalid
  | endOfInput => .endOfInput

/-- The lexeme as it stands in the source. -/
def text : Lexeme → List Char
  | symbol fixed => fixed.spelling.toList
  | integer digits => digits
  | decimal whole fraction => whole ++ '.' :: fraction
  | quoted body => '"' :: (body ++ ['"'])
  | identifier name => name.toList
  | invalid text => text
  | endOfInput => []

end Lexeme

/-- A lexeme and the byte offset at which it stands. -/
structure Token where
  lexeme : Lexeme
  start : Nat
  deriving DecidableEq, Repr

namespace Token

def kind (token : Token) : TokenKind := token.lexeme.kind

def text (token : Token) : List Char := token.lexeme.text

def stop (token : Token) : Nat := token.start + Text.size token.text

def span (token : Token) : Span := ⟨token.start, token.stop⟩

/-- The token that marks the end of a source of the given size. -/
def atEnd (size : Nat) : Token := ⟨.endOfInput, size⟩

end Token

end ClamSyntax
