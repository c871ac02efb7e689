/-!
# Operators

The operators that stand between two operands, with their two spellings: `symbol` in concrete syntax and `tag`
in structured notations.
-/

namespace Treewalk

/-- An operator between two operands. -/
inductive Operator where
  | add
  | sub
  | mul
  | div
  | mod
  | eq
  | ne
  | lt
  | le
  | gt
  | ge
  | and
  | or
  /-- Joins two strings or two lists. -/
  | concat
  deriving DecidableEq, Repr

namespace Operator

/-- Every operator. -/
def all : List Operator :=
  [.add, .sub, .mul, .div, .mod, .eq, .ne, .lt, .le, .gt, .ge, .and, .or, .concat]

/-- The operator in concrete syntax. -/
def symbol : Operator → String
  | .add => "+"
  | .sub => "-"
  | .mul => "*"
  | .div => "/"
  | .mod => "mod"
  | .eq => "="
  | .ne => "<>"
  | .lt => "<"
  | .le => "<="
  | .gt => ">"
  | .ge => ">="
  | .and => "&&"
  | .or => "||"
  | .concat => "@"

/-- The operator's name in structured notations. -/
def tag : Operator → String
  | .add => "Add"
  | .sub => "Sub"
  | .mul => "Mul"
  | .div => "Div"
  | .mod => "Mod"
  | .eq => "Eq"
  | .ne => "NotEq"
  | .lt => "Lt"
  | .le => "LtEq"
  | .gt => "Gt"
  | .ge => "GtEq"
  | .and => "And"
  | .or => "Or"
  | .concat => "Concat"

/-- The operator with the given name. -/
def ofTag? (name : String) : Option Operator :=
  all.find? (·.tag == name)

/-- Whether the operator compares its operands. -/
def isComparison : Operator → Bool
  | .eq | .ne | .lt | .le | .gt | .ge => true
  | _ => false

theorem mem_all (op : Operator) : op ∈ all := by
  cases op <;> decide

theorem ofTag?_tag (op : Operator) : ofTag? op.tag = some op := by
  cases op <;> decide

end Operator

end Treewalk
