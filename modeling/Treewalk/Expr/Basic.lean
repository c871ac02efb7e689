import Treewalk.Operator

/-!
# Expressions

The abstract syntax of the language: literals, names, the primitive operations on integers, booleans, lists and
dictionaries, conditionals, bindings, functions and sequences. Operations with the same number of operands share a
constructor (`unary`, `binary`, `combine`), because they differ only in what is done with the values of their
operands; each has a name of its own below. The four ways to bind names are a `Decl`, which is scoped over a body by
`letIn` and over the rest of a sequence by `declare`.
-/

namespace Treewalk

/-- An operation on one operand. -/
inductive Unary where
  | not
  | neg
  | head
  | tail
  deriving DecidableEq, Repr

/-- An operation on two operands. The dictionary operations take the key first. -/
inductive Binary where
  | operator (op : Operator)
  | cons
  | delete
  | hasKey
  | getKey
  deriving DecidableEq, Repr

/-- An operation that applies a function throughout a collection. -/
inductive Combinator where
  | map
  | fold
  | filter
  deriving DecidableEq, Repr

mutual

/-- An expression. -/
inductive Expr where
  | unit
  | integer (n : Int64)
  | boolean (b : Bool)
  | string (s : String)
  | list (items : List Expr)
  | dict (pairs : List (Expr × Expr))
  | symbol (name : String)
  | unary (op : Unary) (operand : Expr)
  | binary (op : Binary) (left right : Expr)
  | insert (key value dict : Expr)
  | combine (op : Combinator) (coll func : Expr)
  | branch (cond yes no : Expr)
  | letIn (decl : Decl) (body : Expr)
  | declare (decl : Decl)
  | lambda (params : List String) (body : Expr)
  | apply (callee : Expr) (args : List Expr)
  | sequence (items : List Expr)
  /-- The argument is handed to the function. -/
  | pipe (func arg : Expr)

/-- A way to bind names. The names of one group are bound at once and do not see each other. -/
inductive Decl where
  /-- To the values of the right-hand sides. -/
  | eager (bindings : List (String × Expr))
  /-- To the right-hand sides, to be evaluated when they are looked up. -/
  | lazy (bindings : List (String × Expr))
  /-- To a function that can call itself by the name. -/
  | recursive (name : String) (value : Expr)
  /-- To such a function, to be built when it is looked up. -/
  | lazyRecursive (name : String) (value : Expr)

end

instance : Inhabited Expr := ⟨.unit⟩

namespace Expr

/-! ## Named forms -/

@[match_pattern] abbrev not (operand : Expr) : Expr := .unary .not operand

@[match_pattern] abbrev neg (operand : Expr) : Expr := .unary .neg operand

@[match_pattern] abbrev head (list : Expr) : Expr := .unary .head list

@[match_pattern] abbrev tail (list : Expr) : Expr := .unary .tail list

@[match_pattern] abbrev operator (op : Operator) (left right : Expr) : Expr := .binary (.operator op) left right

@[match_pattern] abbrev cons (elem list : Expr) : Expr := .binary .cons elem list

@[match_pattern] abbrev delete (key dict : Expr) : Expr := .binary .delete key dict

@[match_pattern] abbrev hasKey (key dict : Expr) : Expr := .binary .hasKey key dict

@[match_pattern] abbrev getKey (key dict : Expr) : Expr := .binary .getKey key dict

@[match_pattern] abbrev map (coll func : Expr) : Expr := .combine .map coll func

@[match_pattern] abbrev fold (coll func : Expr) : Expr := .combine .fold coll func

@[match_pattern] abbrev filter (coll func : Expr) : Expr := .combine .filter coll func

/-! ## Classes of expressions -/

/-- An expression that is never put in parentheses. -/
def isAtomic : Expr → Bool
  | .unit | .integer _ | .boolean _ | .string _ | .list _ | .dict _ | .symbol _ => true
  | _ => false

/-- An expression that binds names for the rest of the sequence it stands in. -/
def isDeclaration : Expr → Bool
  | .declare _ => true
  | _ => false

end Expr

/-- What tells the four ways to bind names apart in structured notations. -/
def Decl.suffix : Decl → String
  | .eager _ => ""
  | .lazy _ => "lazy"
  | .recursive _ _ => "rec"
  | .lazyRecursive _ _ => "reclazy"

/-- The name of an expression's form in structured notations. -/
def Expr.kind : Expr → String
  | .unit => "Unit"
  | .integer _ => "Integer"
  | .boolean _ => "Boolean"
  | .string _ => "String"
  | .list _ => "List"
  | .dict _ => "Dict"
  | .symbol _ => "Symbol"
  | .head _ => "Head"
  | .tail _ => "Tail"
  | .not _ | .neg _ => "Unary"
  | .operator _ _ _ => "Binary"
  | .cons _ _ => "Cons"
  | .delete _ _ => "DictDelete"
  | .hasKey _ _ => "DictHasKey"
  | .getKey _ _ => "DictGetKey"
  | .insert _ _ _ => "DictInsert"
  | .map _ _ => "Mapv"
  | .fold _ _ => "Fold"
  | .filter _ _ => "Filter"
  | .branch _ _ _ => "IfThenElse"
  | .letIn decl _ => "Let" ++ decl.suffix
  | .declare decl => "Def" ++ decl.suffix
  | .lambda _ _ => "Lambda"
  | .apply _ _ => "Apply"
  | .sequence _ => "Sequence"
  | .pipe _ _ => "Pipe"

end Treewalk
