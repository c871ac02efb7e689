import Treewalk.Eval.Basic

/-!
# Sessions

A session keeps an environment, a call stack, the settings and the store from one command to the next. `Session.step`
carries out one command. A save remembers the environment and the stack, but not the settings, nor the store: a thunk
that has been evaluated stays so.
-/

namespace Treewalk

/-- What a session keeps. -/
structure Session where
  config : Config := {}
  env : Env := Env.withBuiltins
  stack : CallStack := CallStack.empty
  store : Store := {}
  saved : List (String × Env × CallStack) := []

/-- What can be asked of a session. -/
inductive Command where
  /-- Replaces the settings. -/
  | configure (config : Config)
  | eval (e : Expr)
  /-- Evaluates and, on success, binds a name to the value. -/
  | bind (name : String) (e : Expr)
  /-- Binds a name to a thunk. -/
  | defer (name : String) (e : Expr)
  /-- Binds a name to what another name is bound to. -/
  | rebind (name source : String)
  /-- Evaluates a function and its arguments, and applies it. The arguments are evaluated even if the function fails, up
  to the first that fails too. -/
  | apply (callee : Expr) (args : List Expr)
  /-- Evaluates independent expressions, each on an empty stack. -/
  | batch (es : List Expr)
  | lookup (name : String)
  | names
  | save (slot : String)
  | restore (slot : String)
  | push (e : Expr)
  | pushWithin (e : Expr) (limit : Option Nat)
  | pop
  | stack
  /-- Gives a failure the backtrace of the stack. -/
  | attach (failure : Failure)

/-- What a session answers. -/
inductive Reply where
  | config (config : Config)
  | result (result : Result)
  | results (results : List Result)
  /-- The number of bound names. -/
  | bound (count : Nat)
  | rebound (found : Bool) (count : Nat)
  | binding (binding : Option Binding)
  | names (env : Env)
  | saved (count : Nat)
  | restored (count depth : Nat)
  | unknownSlot
  | depth (depth : Nat)
  | stack (stack : CallStack)
  | failure (failure : Failure)

namespace Session

/-- The number of bound names. -/
def count (s : Session) : Nat :=
  s.env.names.length

/-- Runs a computation on the session's store. -/
def run (s : Session) (m : Run α) : Option (Except Failure α × Session) :=
  match m s.store with
  | .done a store => some (.ok a, { s with store })
  | .failed failure store => some (.error failure, { s with store })
  | .outOfFuel => none

/-- The reply to a change of the stack, and the session after it. -/
def withStack (s : Session) : Except Cause CallStack → Reply × Session
  | .ok stack => (.depth stack.depth, { s with stack })
  | .error cause => (.failure { cause }, s)

/-- One command: the reply to it and the session after it, if its evaluations end within the fuel. -/
def step (fuel : Nat) (s : Session) : Command → Option (Reply × Session)
  | .configure config => some (.config config, { s with config })
  | .eval e => do
    let (result, s) ← s.run (Treewalk.eval s.config fuel e s.env s.stack)
    return (.result result, s)
  | .bind name e => do
    let (result, s) ← s.run (Treewalk.eval s.config fuel e s.env s.stack)
    match result with
    | .ok v => return (.result result, { s with env := s.env.bind name v })
    | .error _ => return (.result result, s)
  | .defer name e => do
    let (extended, s) ← s.run (Run.bindLazy [(name, e)] s.env)
    match extended with
    | .ok env =>
      let s := { s with env }
      return (.bound s.count, s)
    | .error failure => return (.failure failure, s)
  | .rebind name source =>
    match s.env.lookup? source with
    | some binding =>
      let s := { s with env := s.env.extend name binding }
      some (.rebound true s.count, s)
    | none => some (.rebound false s.count, s)
  | .apply callee args => do
    let (result, s) ← s.run do
      let f ← (Treewalk.eval s.config fuel callee s.env s.stack).attempt
      let vs ← (args.mapM fun e => Treewalk.eval s.config fuel e s.env s.stack).attempt
      Treewalk.apply s.config fuel (← Run.ofResult f) (← Run.ofResult vs) s.stack
    return (.result result, s)
  | .batch es => do
    let (results, s) ← s.run (evalBatch s.config fuel s.env es)
    match results with
    | .ok results => return (.results results, s)
    | .error failure => return (.failure failure, s)
  | .lookup name => some (.binding (s.env.lookup? name), s)
  | .names => some (.names s.env, s)
  | .save slot =>
    let s := { s with saved := (slot, s.env, s.stack) :: s.saved.filter (·.1 != slot) }
    some (.saved s.saved.length, s)
  | .restore slot =>
    match s.saved.lookup slot with
    | some (env, stack) =>
      let s := { s with env, stack }
      some (.restored s.count s.stack.depth, s)
    | none => some (.unknownSlot, s)
  | .push e => some (s.withStack (.ok (s.stack.push e)))
  | .pushWithin e limit => some (s.withStack (s.stack.pushWithin limit e))
  | .pop => some (s.withStack s.stack.pop)
  | .stack => some (.stack s.stack, s)
  | .attach failure => some (.failure (s.stack.attach failure), s)

end Session

end Treewalk
