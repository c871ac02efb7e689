import Treewalk.Env
import Treewalk.Eval.Run

/-!
# Looking into environments

What a host can see of an environment: its names and the kinds of their bindings. Which thunks have been evaluated is
kept in the store, so it is asked for too.
-/

namespace Treewalk

/-- The kind of a binding: the type of its value, or the state of its thunk. The empty name is out of reach, whatever it
is bound to. -/
def Binding.kind (store : Store) (name : String) : Binding → String
  | .value v => if name.isEmpty then "unreachable" else v.typeName
  | .thunk cell _ _ =>
    if name.isEmpty then "unreachable" else if (store.memo? cell).isSome then "forced thunk" else "thunk"

/-- The names of an environment in increasing order, each with the kind of its binding. Builtins under their own name
are left out. -/
def Env.listing (store : Store) (env : Env) : List (String × String) :=
  (env.entries.filter fun entry => !isUntouchedBuiltin entry).map fun (name, binding) =>
    (name, binding.kind store name)

/-- The outline of a thunk. -/
def thunkOutline (store : Store) (cell : Nat) (e : Expr) : Outline :=
  .fields "Thunk" [("expr", e.outline), ("forced", .bool (store.memo? cell).isSome)] true

end Treewalk
