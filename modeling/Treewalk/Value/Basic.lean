import Treewalk.Builtin
import Treewalk.Expr.Basic

/-!
# Values

What expressions evaluate to, and what names are bound to. A function carries the environment of its definition and
the number it got when it was made: two functions are the same exactly when they have the same number. A name is
bound to a value, or to a thunk: an expression with the environment to evaluate it in and a memo cell for its value.
-/

namespace Treewalk

mutual

/-- A value. -/
inductive Value where
  | unit
  | int (n : Int64)
  | bool (b : Bool)
  | str (s : String)
  | list (items : List Value)
  /-- Pairs of keys and values, in the order in which the keys came. -/
  | dict (pairs : List (Value × Value))
  /-- A function. A recursive one is bound to its own name, `self`, when it is applied. -/
  | closure (id : Nat) (self : Option String) (params : List String) (body : Expr)
      (env : List (String × Binding))
  /-- A builtin with the arguments it has got so far. -/
  | primitive (builtin : Builtin) (args : List Value)

/-- What a name is bound to. -/
inductive Binding where
  | value (v : Value)
  | thunk (cell : Nat) (expr : Expr) (env : List (String × Binding))

end

/-- The bindings in scope, innermost first. -/
abbrev Env : Type := List (String × Binding)

instance : Inhabited Value := ⟨.unit⟩

namespace Value

/-- The name of a value's type. -/
def typeName : Value → String
  | .unit => "unit"
  | .int _ => "int"
  | .bool _ => "bool"
  | .str _ => "string"
  | .list _ => "list"
  | .dict _ => "dict"
  | .closure _ none _ _ _ => "closure"
  | .closure _ (some _) _ _ _ => "recursive closure"
  | .primitive _ _ => "primitive"

/-- Whether a value can be applied. -/
def isCallable : Value → Bool
  | .closure _ _ _ _ _ | .primitive _ _ => true
  | _ => false

/-- The integer that a value is. -/
def asInt? : Value → Option Int64
  | .int n => some n
  | _ => none

/-- The truth value that a value is. -/
def asBool? : Value → Option Bool
  | .bool b => some b
  | _ => none

end Value

end Treewalk
