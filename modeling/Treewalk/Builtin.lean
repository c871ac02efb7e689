/-!
# Builtin functions

The functions that every program finds bound in its first environment, with the name each is bound to and the number
of arguments it runs on.
-/

namespace Treewalk

/-- A builtin function. -/
inductive Builtin where
  | head
  | tail
  | cons
  | length
  | insert
  | delete
  | hasKey
  | getKey
  | map
  | fold
  | filter
  | not
  deriving DecidableEq, Repr

namespace Builtin

/-- Every builtin. -/
def all : List Builtin :=
  [.head, .tail, .cons, .length, .insert, .delete, .hasKey, .getKey, .map, .fold, .filter, .not]

/-- The name that the builtin is bound to. -/
def name : Builtin → String
  | .head => "head"
  | .tail => "tail"
  | .cons => "cons"
  | .length => "length"
  | .insert => "insert"
  | .delete => "delete"
  | .hasKey => "haskey"
  | .getKey => "getkey"
  | .map => "map"
  | .fold => "fold"
  | .filter => "filter"
  | .not => "not"

/-- The builtin's name in structured notations. -/
def tag : Builtin → String
  | .head => "Head"
  | .tail => "Tail"
  | .cons => "Cons"
  | .length => "Length"
  | .insert => "Insert"
  | .delete => "Delete"
  | .hasKey => "HasKey"
  | .getKey => "GetKey"
  | .map => "Map"
  | .fold => "Fold"
  | .filter => "Filter"
  | .not => "Not"

/-- The number of arguments that the builtin runs on. -/
def arity : Builtin → Nat
  | .head | .tail | .length | .not => 1
  | .cons | .delete | .hasKey | .getKey | .map | .fold | .filter => 2
  | .insert => 3

/-- The builtin that is bound to the given name. -/
def ofName? (name : String) : Option Builtin :=
  all.find? (·.name == name)

theorem mem_all (b : Builtin) : b ∈ all := by
  cases b <;> decide

theorem ofName?_name (b : Builtin) : ofName? b.name = some b := by
  cases b <;> decide

theorem arity_pos (b : Builtin) : 0 < b.arity := by
  cases b <;> decide

end Builtin

end Treewalk
