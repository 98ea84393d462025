/-! The operator table: spelling, numeric tag and binding powers of every infix
and prefix operator, each written down once. Tags are unique across both groups
because tokens, tree nodes and instruction words share them. -/

namespace ClamSyntax

/-- How tightly an infix form holds its two operands; a higher power holds tighter. -/
structure Power where
  left : Nat
  right : Nat
  deriving DecidableEq, Repr

/-- Application by juxtaposition: tighter than every infix operator, looser than
the prefix `-`. -/
def Power.application : Power := ⟨16, 17⟩

inductive BinaryOp where
  | pipe | append | add | sub | mul | div | mod | concat
  | and | or | lt | le | gt | ge | eq | ne
  deriving DecidableEq, Repr

namespace BinaryOp

/-- Every infix operator, by ascending tag. -/
def all : List BinaryOp :=
  [pipe, append, add, sub, mul, div, mod, concat, and, or, lt, le, gt, ge, eq, ne]

def spelling : BinaryOp → String
  | pipe => "|>"
  | append => "::"
  | add => "+"
  | sub => "-"
  | mul => "*"
  | div => "/"
  | mod => "%"
  | concat => "++"
  | and => "and"
  | or => "or"
  | lt => "<"
  | le => "<="
  | gt => ">"
  | ge => ">="
  | eq => "=="
  | ne => "!="

/-- The name by which tree dumps and instruction listings call the operator. -/
def name : BinaryOp → String
  | pipe => "Pipe"
  | append => "Append"
  | add => "Add"
  | sub => "Sub"
  | mul => "Mul"
  | div => "Div"
  | mod => "Mod"
  | concat => "Concat"
  | and => "And"
  | or => "Or"
  | lt => "Lt"
  | le => "Le"
  | gt => "Gt"
  | ge => "Ge"
  | eq => "Eq"
  | ne => "Ne"

def tag : BinaryOp → Nat
  | pipe => 32
  | append => 33
  | add => 34
  | sub => 35
  | mul => 36
  | div => 37
  | mod => 38
  | concat => 39
  | and => 40
  | or => 41
  | lt => 42
  | le => 43
  | gt => 44
  | ge => 45
  | eq => 46
  | ne => 47

/-- A left power above the right one makes an operator associate to the right. -/
def power : BinaryOp → Power
  | or => ⟨2, 3⟩
  | and => ⟨4, 5⟩
  | eq | ne | lt | le | gt | ge | pipe => ⟨7, 6⟩
  | append => ⟨9, 8⟩
  | add | sub => ⟨10, 11⟩
  | mul | div | mod => ⟨12, 13⟩
  | concat => ⟨14, 15⟩

theorem mem_all (op : BinaryOp) : op ∈ all := by cases op <;> decide

theorem tag_injective {first second : BinaryOp} (same : first.tag = second.tag) :
    first = second := by
  cases first <;> cases second <;> first | rfl | cases same

theorem power_lt_application (op : BinaryOp) :
    op.power.left < Power.application.left ∧ op.power.right < Power.application.left := by
  cases op <;> decide

end BinaryOp

inductive UnaryOp where
  | not | negate
  deriving DecidableEq, Repr

namespace UnaryOp

/-- Every prefix operator, by ascending tag. -/
def all : List UnaryOp := [not, negate]

def spelling : UnaryOp → String
  | not => "not"
  | negate => "-"

/-- The name by which tree dumps and instruction listings call the operator. -/
def name : UnaryOp → String
  | not => "Not"
  | negate => "Negate"

def tag : UnaryOp → Nat
  | not => 48
  | negate => 49

/-- The least power that the operand may expose: `not` takes a whole conjunction,
`-` a single operand. -/
def power : UnaryOp → Nat
  | not => 1
  | negate => 18

theorem mem_all (op : UnaryOp) : op ∈ all := by cases op <;> decide

end UnaryOp

theorem BinaryOp.tag_ne_unary (op : BinaryOp) (other : UnaryOp) : op.tag ≠ other.tag := by
  cases op <;> cases other <;> decide

end ClamSyntax
