import Treewalk.Eval.Step

/-!
# The evaluator

`eval` evaluates an expression and `apply` applies a function. Both are given fuel, a bound on how deeply their calls
may nest; an evaluation that needs more ends in `Outcome.outOfFuel`, and one that ends otherwise ends the same with any
greater fuel.
-/

namespace Treewalk

mutual

/-- The value of an expression. -/
def eval (config : Config) : Nat → Expr → Env → CallStack → Run Value
  | 0, _, _, _ => Run.outOfFuel
  | n + 1, e, env, stack =>
    Run.inFrame config.maxDepth e stack fun stack =>
      Interpreter.evalStep ⟨eval config n, apply config n⟩ config e env stack

/-- The result of a function on some arguments. -/
def apply (config : Config) : Nat → Value → List Value → CallStack → Run Value
  | 0, _, _, _ => Run.outOfFuel
  | n + 1, callee, args, stack =>
    Interpreter.applyStep ⟨eval config n, apply config n⟩ callee args stack

end

/-- The evaluator with the given fuel. -/
def interpreter (config : Config) (n : Nat) : Interpreter :=
  ⟨eval config n, apply config n⟩

/-- A whole program: the builtins are in scope and no frame is open. -/
def evalProgram (config : Config) (n : Nat) (e : Expr) : Run Value :=
  eval config n e Env.withBuiltins CallStack.empty

/-- Independent expressions in one environment, each on an empty stack; the failure of one is its result. They may run
in any order or at the same time. Here the store passes from each to the next, in the order of the list. -/
def evalBatch (config : Config) (n : Nat) (env : Env) (es : List Expr) : Run (List Result) :=
  es.mapM fun e => (eval config n e env CallStack.empty).attempt

end Treewalk
