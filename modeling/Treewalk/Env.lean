import Treewalk.Value.Outline

/-!
# Environments

An environment is a list of bindings in which the first binding of a name hides the others, so extending one never
changes what a function or a thunk has captured. The empty name can be bound, and counts as a name, but looking it up
finds nothing.
-/

namespace Treewalk.Env

/-- Binds a name, hiding what it was bound to. -/
def extend (env : Env) (name : String) (binding : Binding) : Env :=
  (name, binding) :: env

/-- Binds a name to a value. -/
def bind (env : Env) (name : String) (v : Value) : Env :=
  env.extend name (.value v)

/-- Binds names to values, from left to right. -/
def bindAll (env : Env) (bindings : List (String × Value)) : Env :=
  bindings.foldl (fun env (name, v) => env.bind name v) env

/-- What a name is bound to. -/
def lookup? (env : Env) (name : String) : Option Binding :=
  if name.isEmpty then none else List.lookup name env

/-- The environment that binds every builtin to its name. -/
def withBuiltins : Env :=
  bindAll [] (Builtin.all.map fun b => (b.name, .primitive b []))

/-- The bound names in increasing order, each once. -/
def names (env : Env) : List String :=
  (env.map (·.1)).eraseDups.mergeSort (fun a b => decide (a ≤ b))

/-- The bound names in increasing order, each with its binding. -/
def entries (env : Env) : List (String × Binding) :=
  env.names.filterMap fun name => (List.lookup name env).map (name, ·)

/-- Whether a name is bound to the builtin of that very name, without arguments. -/
def isUntouchedBuiltin : String × Binding → Bool
  | (name, .value (.primitive builtin [])) => builtin.name == name
  | _ => false

/-- The outline of an environment, by its names. -/
def outline (env : Env) : Outline :=
  .record "Environment" [("names", .list (env.names.map .text))]

theorem lookup?_extend (env : Env) (name other : String) (binding : Binding) :
    (env.extend name binding).lookup? other =
      if other = name ∧ other ≠ "" then some binding else env.lookup? other := by
  by_cases hn : other = name
  · subst hn
    by_cases he : other = "" <;> simp [lookup?, extend, he]
  · have hb : (other == name) = false := by simp [hn]
    simp [lookup?, extend, List.lookup_cons, hn, hb]

end Treewalk.Env
