import Treewalk.Expr.Basic
import Treewalk.Text.Quoted

/-!
# Concrete syntax

`Expr.display` writes an expression the way a program would be typed. An operand is put in parentheses unless it is
atomic, so no table of precedences is needed; the parts that a keyword or a bracket delimits never are.
-/

namespace Treewalk

/-- An integer in decimal. -/
def displayInt (n : Int64) : String :=
  toString n.toInt

/-- A truth value. -/
def displayBool (b : Bool) : String :=
  if b then "true" else "false"

namespace Expr

/-- The text of an expression, in parentheses unless the expression is atomic. -/
def parenthesize (e : Expr) (text : String) : String :=
  if e.isAtomic then text else "(" ++ text ++ ")"

/-- What stands between the operands of a binary operation, or before them. -/
def displayBinary (op : Binary) (left right : String) : String :=
  match op with
  | .operator op => left ++ " " ++ op.symbol ++ " " ++ right
  | .cons => left ++ " :: " ++ right
  | .delete => "delete " ++ left ++ " " ++ right
  | .hasKey => "haskey " ++ left ++ " " ++ right
  | .getKey => "getkey " ++ left ++ " " ++ right

/-- What stands before the operand of a unary operation. -/
def displayUnary (op : Unary) (operand : String) : String :=
  match op with
  | .not => "not " ++ operand
  | .neg => "-" ++ operand
  | .head => "head " ++ operand
  | .tail => "tail " ++ operand

/-- The word for a combinator. -/
def displayCombinator : Combinator → String
  | .map => "map"
  | .fold => "fold"
  | .filter => "filter"

mutual

/-- An expression in concrete syntax. -/
def display : Expr → String
  | .unit => "()"
  | .integer n => displayInt n
  | .boolean b => displayBool b
  | .string s => Text.quote s
  | .list [] => "[]"
  | .list (e :: es) => displayItems es ("[" ++ display e) ++ "]"
  | .dict [] => "\x7b\x7d"
  | .dict ((k, v) :: pairs) => displayPairs pairs ("\x7b" ++ display k ++ ":" ++ display v) ++ "\x7d"
  | .symbol name => name
  | .unary op e => displayUnary op (parenthesize e (display e))
  | .binary op l r => displayBinary op (parenthesize l (display l)) (parenthesize r (display r))
  | .insert k v d =>
    "insert " ++ parenthesize k (display k) ++ " " ++ parenthesize v (display v) ++ " " ++
      parenthesize d (display d)
  | .combine op coll func =>
    displayCombinator op ++ " " ++ parenthesize func (display func) ++ " " ++ parenthesize coll (display coll)
  | .branch c y n => "if " ++ display c ++ " then " ++ display y ++ " else " ++ display n
  | .letIn decl body => displayDecl decl ++ " in " ++ display body
  | .declare decl => displayDecl decl
  | .lambda params body => "fun " ++ " ".intercalate params ++ " -> " ++ display body
  | .apply callee [] => parenthesize callee (display callee) ++ " ()"
  | .apply callee (arg :: args) =>
    displayOperands " " args (parenthesize callee (display callee) ++ " " ++ parenthesize arg (display arg))
  | .sequence [] => ""
  | .sequence (e :: es) => displayOperands "; " es (parenthesize e (display e))
  | .pipe func arg => parenthesize arg (display arg) ++ " |> " ++ parenthesize func (display func)

/-- A declaration in concrete syntax. -/
def displayDecl : Decl → String
  | .eager [] => "let "
  | .eager ((name, e) :: bindings) => displayBindings bindings ("let " ++ name ++ " = " ++ display e)
  | .lazy [] => "let lazy "
  | .lazy ((name, e) :: bindings) => displayBindings bindings ("let lazy " ++ name ++ " = " ++ display e)
  | .recursive name e => "let rec " ++ name ++ " = " ++ display e
  | .lazyRecursive name e => "let lazy rec " ++ name ++ " = " ++ display e

/-- The further items of a list, after the text of those before them. -/
def displayItems : List Expr → String → String
  | [], text => text
  | e :: es, text => displayItems es (text ++ "; " ++ display e)

/-- The further pairs of a dictionary, after the text of those before them. -/
def displayPairs : List (Expr × Expr) → String → String
  | [], text => text
  | (k, v) :: pairs, text => displayPairs pairs (text ++ ", " ++ display k ++ ":" ++ display v)

/-- The further operands of a form, each after a separator. -/
def displayOperands (separator : String) : List Expr → String → String
  | [], text => text
  | e :: es, text => displayOperands separator es (text ++ separator ++ parenthesize e (display e))

/-- The further bindings of a group, after the text of those before them. -/
def displayBindings : List (String × Expr) → String → String
  | [], text => text
  | (name, e) :: bindings, text => displayBindings bindings (text ++ " and " ++ name ++ " = " ++ display e)

end

end Expr

end Treewalk
