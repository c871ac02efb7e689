import Treewalk.Config
import Treewalk.Env
import Treewalk.Eval.Run
import Treewalk.Operation

/-!
# One step of the evaluator

What each form of expression does with the values of its parts, and each kind of function with its arguments. Nothing
here is recursive: the values of the parts come from an `Interpreter`, a pair of functions that evaluate an expression
and apply a function.
-/

namespace Treewalk

/-- How to evaluate the parts of an expression. -/
structure Interpreter where
  /-- The value of an expression. -/
  eval : Expr → Env → CallStack → Run Value
  /-- The result of a function on some arguments. -/
  apply : Value → List Value → CallStack → Run Value

/-! ## Operations -/

namespace Run

/-- A unary operation. -/
def unary (op : Unary) (v : Value) : Run Value :=
  ofExcept (op.apply v)

/-- A binary operation. -/
def binary (op : Binary) (a b : Value) : Run Value := do
  noteIdentityTest (op.testsIdentity a b)
  ofExcept (op.apply a b)

/-- Storing a value in a dictionary. -/
def insert (key value dict : Value) : Run Value := do
  noteIdentityTest (key.searchTestsIdentity dict)
  ofExcept (Value.insert key value dict)

/-- Adds a pair to the dictionary that a literal has built so far. -/
def addPair (dict : Dict) (key value : Value) : Run Dict := do
  noteIdentityTest (dict.testsIdentity key)
  return dict.insert key value

/-- A function over the items of a list, or the values of a dictionary. -/
def mapOver (f : Value → Run Value) : Value → Run Value
  | .list vs => .list <$> vs.mapM f
  | .dict pairs => .dict <$> pairs.mapM fun (k, v) => do return (k, ← f v)
  | v => fail (.typeMismatch "list or dict" v.typeName)

/-- The items of a list, or the pairs of a dictionary by their values, that pass a test. -/
def filterOver (f : Value → Run Bool) : Value → Run Value
  | .list vs => .list <$> vs.filterM f
  | .dict pairs => .dict <$> pairs.filterM fun (_, v) => f v
  | v => fail (.typeMismatch "list or dict" v.typeName)

/-- Combines values from left to right, starting with the first. -/
def foldAll (f : Value → Value → Run Value) : List Value → Run Value
  | [] => fail .emptyFold
  | v :: vs => vs.foldlM f v

/-- Combines the items of a list, or the values of a dictionary. -/
def foldOver (f : Value → Value → Run Value) : Value → Run Value
  | .list vs => foldAll f vs
  | .dict pairs => foldAll f (pairs.map (·.2))
  | v => fail (.typeMismatch "list or dict" v.typeName)

end Run

namespace Interpreter

open Run

variable (I : Interpreter)

/-- What a predicate says of a value. -/
def test (predicate v : Value) (stack : CallStack) : Run Bool := do
  match ← I.apply predicate [v] stack with
  | .bool b => return b
  | v => fail (.typeMismatch "bool" v.typeName)

/-- A function throughout a collection. -/
def combine (op : Combinator) (func coll : Value) (stack : CallStack) : Run Value :=
  if func.isCallable then
    match op with
    | .map => mapOver (fun v => I.apply func [v] stack) coll
    | .filter => filterOver (fun v => I.test func v stack) coll
    | .fold => foldOver (fun acc v => I.apply func [acc, v] stack) coll
  else fail (.notCallable func.typeName)

/-! ## Names -/

/-- The value of a thunk. -/
def force (strategy : Strategy) (cell : Nat) (e : Expr) (env : Env) (stack : CallStack) : Run Value :=
  match strategy with
  | .byName => I.eval e env stack
  | .byNeed => do
    match ← memo? cell with
    | some v => return v
    | none => memoize cell (← I.eval e env stack)

/-- The value of a name. -/
def lookup (strategy : Strategy) (name : String) (env : Env) (stack : CallStack) : Run Value :=
  match env.lookup? name with
  | some (.value v) => return v
  | some (.thunk cell e captured) => I.force strategy cell e captured stack
  | none => fail (.unboundVariable name)

/-- The environment with names bound to values. Every right-hand side is evaluated before any name is bound. -/
def bindEager (bindings : List (String × Expr)) (env : Env) (stack : CallStack) : Run Env := do
  let vs ← bindings.mapM fun (_, e) => I.eval e env stack
  return env.bindAll ((bindings.map (·.1)).zip vs)

end Interpreter

namespace Run

/-- The environment with names bound to thunks. -/
def bindLazy (bindings : List (String × Expr)) (env : Env) : Run Env :=
  bindings.foldlM (fun extended (name, e) => do return extended.extend name (.thunk (← newCell) e env)) env

/-- The environment with a name bound to a recursive function. -/
def bindRecursive (name : String) (value : Expr) (env : Env) : Run Env :=
  match value with
  | .lambda params body => do return env.bind name (.closure (← freshId) (some name) params body env)
  | _ => fail (.wrongBindingList name)

/-- The environment with a name bound to a thunk that makes a recursive function. -/
def bindLazyRecursive (name : String) (value : Expr) (env : Env) : Run Env :=
  match value with
  | .lambda _ _ => do
    return env.extend name (.thunk (← newCell) (.letIn (.recursive name value) (.symbol name)) env)
  | _ => fail (.wrongBindingList name)

end Run

namespace Interpreter

open Run

variable (I : Interpreter)

/-- The environment that a declaration extends `env` to. -/
def declare (decl : Decl) (env : Env) (stack : CallStack) : Run Env :=
  match decl with
  | .eager bindings => I.bindEager bindings env stack
  | .lazy bindings => bindLazy bindings env
  | .recursive name value => bindRecursive name value env
  | .lazyRecursive name value => bindLazyRecursive name value env

/-- One item of a sequence: the environment of the next item, and the item's value. A declaration is in a frame of its
own and has the value `()`. -/
def sequenceItem (limit : Option Nat) (e : Expr) (env : Env) (stack : CallStack) : Run (Env × Value) :=
  match e with
  | .declare decl => do
    let extended ← inFrame limit e stack fun stack => I.declare decl env stack
    return (extended, .unit)
  | e => do return (env, ← I.eval e env stack)

/-- The value of the last item of a sequence. -/
def sequence (limit : Option Nat) (items : List Expr) (env : Env) (stack : CallStack) : Run Value :=
  if items.isEmpty then fail .emptySequence
  else do
    let (_, v) ← items.foldlM (fun (env, _) e => I.sequenceItem limit e env stack) (env, .unit)
    return v

/-! ## Functions -/

/-- A builtin on as many arguments as it runs on. -/
def callBuiltin (builtin : Builtin) (args : List Value) (stack : CallStack) : Run Value :=
  match builtin, args with
  | .head, [list] => unary .head list
  | .tail, [list] => unary .tail list
  | .not, [v] => unary .not v
  | .length, [coll] => ofExcept coll.length
  | .cons, [v, list] => binary .cons v list
  | .delete, [key, dict] => binary .delete key dict
  | .hasKey, [key, dict] => binary .hasKey key dict
  | .getKey, [key, dict] => binary .getKey key dict
  | .insert, [key, value, dict] => insert key value dict
  | .map, [func, coll] => I.combine .map func coll stack
  | .fold, [func, coll] => I.combine .fold func coll stack
  | .filter, [func, coll] => I.combine .filter func coll stack
  | _, _ => fail (.arityMismatch builtin.name builtin.arity args.length)

/-- The environment of a function's body, with its own name and its parameters bound. A parameter hides the function's
own name. -/
def bodyEnv (callee : Value) (self : Option String) (env : Env) (bindings : List (String × Value)) : Env :=
  Env.bindAll
    (match self with
    | some name => Env.bind env name callee
    | none => env)
    bindings

/-- A function on some arguments. With too few it gives a function of the others, with too many it fails. -/
def applyStep (callee : Value) (args : List Value) (stack : CallStack) : Run Value :=
  match callee with
  | .closure _ self params body env =>
    if params.length < args.length then fail (.arityMismatch (self.getD "") params.length args.length)
    else
      let env := bodyEnv callee self env (params.zip args)
      if args.length < params.length then do
        return .closure (← freshId) none (params.drop args.length) body env
      else I.eval body env stack
  | .primitive builtin collected =>
    let args := collected ++ args
    if builtin.arity < args.length then fail (.arityMismatch builtin.name builtin.arity args.length)
    else if args.length < builtin.arity then return .primitive builtin args
    else I.callBuiltin builtin args stack
  | v => fail (.notCallable v.typeName)

/-! ## Expressions -/

/-- The value of an expression, from the values of its parts. -/
def evalStep (config : Config) (e : Expr) (env : Env) (stack : CallStack) : Run Value :=
  match e with
  | .unit => return .unit
  | .integer n => return .int n
  | .boolean b => return .bool b
  | .string s => return .str s
  | .list items => do return .list (← items.mapM fun e => I.eval e env stack)
  | .dict pairs => do
    let addNext (dict : Dict) (pair : Expr × Expr) : Run Dict := do
      let key ← I.eval pair.1 env stack
      let value ← I.eval pair.2 env stack
      addPair dict key value
    return .dict (← pairs.foldlM addNext [])
  | .symbol name => I.lookup config.strategy name env stack
  | .unary op e => do unary op (← I.eval e env stack)
  | .binary op l r => do
    let a ← I.eval l env stack
    let b ← I.eval r env stack
    binary op a b
  | .insert k v d => do
    let key ← I.eval k env stack
    let value ← I.eval v env stack
    let dict ← I.eval d env stack
    insert key value dict
  | .combine op c f => do
    let coll ← I.eval c env stack
    let func ← I.eval f env stack
    I.combine op func coll stack
  | .branch c y n => do
    match ← I.eval c env stack with
    | .bool true => I.eval y env stack
    | .bool false => I.eval n env stack
    | v => fail (.typeMismatch "bool" v.typeName)
  | .letIn decl body => do
    let extended ← I.declare decl env stack
    I.eval body extended stack
  | .declare decl => do
    let _ ← I.declare decl env stack
    return .unit
  | .lambda params body => do return .closure (← freshId) none params body env
  | .apply f es => do
    let callee ← I.eval f env stack
    let args ← es.mapM fun e => I.eval e env stack
    I.apply callee args stack
  | .sequence items => I.sequence config.maxDepth items env stack
  | .pipe f e => do
    let func ← I.eval f env stack
    let arg ← I.eval e env stack
    I.apply func [arg] stack

end Interpreter

end Treewalk
