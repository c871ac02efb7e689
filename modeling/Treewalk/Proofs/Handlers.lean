import Mathlib.Tactic.ByContra
import Mathlib.Logic.Function.Basic
import Treewalk.Eval.Basic

/-!
# What frames do to failures

A failure passes through all frames between the place where it arises and the one that reports it, and each of them may
do something to it. What they do is a parameter here, a `Handler`. The evaluator is the one whose frames attach
backtraces (`interpreterHandling_attach`).

A run that fails in the same frames under every handler shows which frames those are: the failure is handled by each of
them in turn, the innermost one first (`CallStack.unwind`). Handlers that note something of the stack where a backtrace
would be taken do so in the first frame only (`CallStack.unwind_attachNote`), and notes tell all stacks apart
(`CallStack.eq_of_notes`).
-/

namespace Treewalk

open Run

/-- What a frame does to a failure that leaves it, given the stack with the frame on top. -/
abbrev Handler : Type := CallStack → Failure → Failure

/-! ## Evaluators with any handler -/

section Evaluators

variable (handle : Handler)

/-- Runs `body` with a frame for `e` on the stack that handles a failure. -/
def Run.inFrameHandling (limit : Option Nat) (e : Expr) (stack : CallStack) (body : CallStack → Run α) : Run α :=
  match stack.pushWithin limit e with
  | .error cause => fail cause
  | .ok stack => fun store =>
    match body stack store with
    | .failed failure store => .failed (handle stack failure) store
    | outcome => outcome

namespace Interpreter

variable (I : Interpreter)

/-- One item of a sequence. -/
def sequenceItemHandling (limit : Option Nat) (e : Expr) (env : Env) (stack : CallStack) : Run (Env × Value) :=
  match e with
  | .declare decl => do
    let extended ← inFrameHandling handle limit e stack fun stack => I.declare decl env stack
    return (extended, .unit)
  | e => do return (env, ← I.eval e env stack)

/-- The value of the last item of a sequence. -/
def sequenceHandling (limit : Option Nat) (items : List Expr) (env : Env) (stack : CallStack) : Run Value :=
  if items.isEmpty then fail .emptySequence
  else do
    let (_, v) ← items.foldlM (fun (env, _) e => I.sequenceItemHandling handle limit e env stack) (env, .unit)
    return v

/-- One step of the evaluator. Among the forms, only a sequence opens frames of its own. -/
def evalStepHandling (config : Config) (e : Expr) (env : Env) (stack : CallStack) : Run Value :=
  match e with
  | .sequence items => I.sequenceHandling handle config.maxDepth items env stack
  | e => I.evalStep config e env stack

theorem evalStepHandling_of_not_sequence {e : Expr} (he : ∀ items, e ≠ .sequence items) (config : Config) (env : Env)
    (stack : CallStack) : I.evalStepHandling handle config e env stack = I.evalStep config e env stack := by
  cases e with
  | sequence items => exact absurd rfl (he items)
  | _ => rfl

theorem evalStepHandling_attach (config : Config) (e : Expr) (env : Env) (stack : CallStack) :
    I.evalStepHandling CallStack.attach config e env stack = I.evalStep config e env stack := by
  have hitem : I.sequenceItemHandling CallStack.attach = I.sequenceItem := by
    funext limit e env stack
    cases e <;> rfl
  cases e with
  | sequence items => simp only [evalStepHandling, evalStep, sequenceHandling, Interpreter.sequence, hitem]
  | _ => rfl

end Interpreter

/-- The evaluator with the given fuel whose frames handle failures. -/
def interpreterHandling (config : Config) : Nat → Interpreter
  | 0 => ⟨fun _ _ _ => Run.outOfFuel, fun _ _ _ => Run.outOfFuel⟩
  | n + 1 =>
    { eval := fun e env stack => inFrameHandling handle config.maxDepth e stack fun stack =>
        (interpreterHandling config n).evalStepHandling handle config e env stack
      apply := (interpreterHandling config n).applyStep }

/-- The evaluator is the one whose frames attach backtraces. -/
theorem interpreterHandling_attach (config : Config) : ∀ n,
    interpreterHandling CallStack.attach config n = interpreter config n
  | 0 => rfl
  | n + 1 => by
    rw [interpreterHandling, interpreterHandling_attach config n]
    simp only [Interpreter.evalStepHandling_attach]
    rfl

end Evaluators

/-! ## The frames that a failure leaves -/

namespace CallStack

/-- The stack with a chain of expressions pushed on it, the last one first. -/
def pushAll (stack : CallStack) (chain : List Expr) : CallStack :=
  chain.foldr (fun e inner => inner.push e) stack

/-- What becomes of a failure that leaves the frames of a chain above the stack, the first one first. -/
def unwind (handle : Handler) (stack : CallStack) : List Expr → Failure → Failure
  | [], failure => failure
  | e :: outer, failure => unwind handle stack outer (handle (stack.pushAll (e :: outer)) failure)

variable (handle : Handler) (stack : CallStack)

theorem pushAll_append (chain : List Expr) (e : Expr) :
    stack.pushAll (chain ++ [e]) = (stack.push e).pushAll chain := by
  simp only [pushAll, List.foldr_append, List.foldr_cons, List.foldr_nil]

theorem exprs_pushAll (chain : List Expr) : (stack.pushAll chain).exprs = chain ++ stack.exprs := by
  induction chain with
  | nil => rfl
  | cons e chain ih => exact congrArg (e :: ·) ih

theorem pushAll_injective : Function.Injective stack.pushAll := by
  intro chain chain' h
  have hexprs := congrArg exprs h
  rw [exprs_pushAll, exprs_pushAll] at hexprs
  exact List.append_cancel_right hexprs

/-- The last frame of a chain handles what has left the others. -/
theorem unwind_append (chain : List Expr) (e : Expr) (failure : Failure) :
    stack.unwind handle (chain ++ [e]) failure =
      handle (stack.push e) ((stack.push e).unwind handle chain failure) := by
  induction chain generalizing failure with
  | nil => rfl
  | cons p chain ih =>
    rw [List.cons_append, unwind, ih, ← List.cons_append, pushAll_append]
    rfl

theorem unwind_attach_cause (stack : CallStack) (chain : List Expr) (failure : Failure) :
    (stack.unwind attach chain failure).cause = failure.cause := by
  induction chain generalizing failure with
  | nil => rfl
  | cons e outer ih => rw [unwind, ih, attach_cause]

end CallStack

/-! ## Notes -/

/-- What is kept of a stack in the place of its backtrace. -/
abbrev Note : Type := CallStack → Backtrace

namespace CallStack

/-- Gives a failure the note of this stack, unless it has one or the stack is empty. -/
def attachNote (note : Note) (stack : CallStack) (failure : Failure) : Failure :=
  if failure.backtrace.isSome || stack.isEmpty then failure
  else { failure with backtrace := some (note stack) }

/-- Backtraces are the notes that the evaluator takes. -/
theorem attachNote_capture : attachNote capture = attach := rfl

/-- Frames leave a failure with a note as it is. -/
theorem unwind_of_some (note : Note) (stack : CallStack) {failure : Failure} {trace : Backtrace}
    (h : failure.backtrace = some trace) (chain : List Expr) :
    stack.unwind (attachNote note) chain failure = failure := by
  induction chain with
  | nil => rfl
  | cons e outer ih =>
    have hkept : attachNote note (stack.pushAll (e :: outer)) failure = failure := by simp [attachNote, h]
    rw [unwind, hkept, ih]

/-- The note of a failure is that of the stack where it arose. -/
theorem unwind_attachNote (note : Note) (stack : CallStack) (cause : Cause) {chain : List Expr} (h : chain ≠ []) :
    stack.unwind (attachNote note) chain ⟨cause, none⟩ = ⟨cause, some (note (stack.pushAll chain))⟩ := by
  cases chain with
  | nil => exact absurd rfl h
  | cons e outer => exact unwind_of_some note stack rfl outer

/-- The backtrace of a failure is that of the stack where it arose. -/
theorem unwind_attach (stack : CallStack) (cause : Cause) {chain : List Expr} (h : chain ≠ []) :
    stack.unwind attach chain ⟨cause, none⟩ = ⟨cause, some (stack.pushAll chain).capture⟩ :=
  unwind_attachNote capture stack cause h

open Classical in
/-- Notes tell stacks apart. -/
theorem eq_of_notes {captured other : CallStack} (h : ∀ note : Note, note captured = note other) :
    other = captured := by
  by_contra hne
  -- a note that tells `captured` from every other stack
  have homitted := congrArg Backtrace.omitted (h fun s => ⟨[], if s = captured then 0 else 1⟩)
  dsimp only at homitted
  rw [if_pos rfl, if_neg hne] at homitted
  cases homitted

end CallStack

end Treewalk
