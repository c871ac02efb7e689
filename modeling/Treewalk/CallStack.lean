import Treewalk.Expr.Concrete
import Treewalk.Failure

/-!
# Call stacks

A `CallStack` holds the expressions that are being evaluated, innermost first. It serves diagnostics, and bounds the
depth of an evaluation that has a limit (`pushWithin`). The number of frames is kept beside them, so that a push
costs the same at every depth; `capture` keeps the innermost frames with a shortened text each.
-/

namespace Treewalk

/-- The expressions that are being evaluated, innermost first, and their number. -/
structure CallStack where
  exprs : List Expr
  depth : Nat
  depth_eq : depth = exprs.length

namespace CallStack

/-- The stack without frames. -/
def empty : CallStack := ⟨[], 0, rfl⟩

instance : Inhabited CallStack := ⟨empty⟩

/-- Opens a frame. -/
def push (stack : CallStack) (e : Expr) : CallStack :=
  ⟨e :: stack.exprs, stack.depth + 1, by simp [stack.depth_eq]⟩

/-- Opens a frame unless the stack has reached the limit. -/
def pushWithin (stack : CallStack) (limit : Option Nat) (e : Expr) : Except Cause CallStack :=
  match limit with
  | some limit => if limit ≤ stack.depth then .error (.recursionLimit limit) else .ok (stack.push e)
  | none => .ok (stack.push e)

theorem pushWithin_none (stack : CallStack) (e : Expr) : stack.pushWithin none e = .ok (stack.push e) := rfl

theorem pushWithin_of_lt {stack : CallStack} {limit : Nat} (h : stack.depth < limit) (e : Expr) :
    stack.pushWithin (some limit) e = .ok (stack.push e) :=
  if_neg (Nat.not_le.2 h)

theorem pushWithin_of_le {stack : CallStack} {limit : Nat} (h : limit ≤ stack.depth) (e : Expr) :
    stack.pushWithin (some limit) e = .error (.recursionLimit limit) :=
  if_pos h

/-- A frame that is not refused is opened as without a limit. -/
theorem eq_push_of_pushWithin {stack inner : CallStack} {limit : Option Nat} {e : Expr}
    (h : stack.pushWithin limit e = .ok inner) : inner = stack.push e := by
  unfold pushWithin at h
  split at h
  · split at h <;> cases h
    rfl
  · cases h; rfl

/-- Only a limit that the stack has reached refuses a frame. -/
theorem eq_recursionLimit_of_pushWithin {stack : CallStack} {limit : Option Nat} {e : Expr} {cause : Cause}
    (h : stack.pushWithin limit e = .error cause) :
    ∃ m, limit = some m ∧ m ≤ stack.depth ∧ cause = .recursionLimit m := by
  unfold pushWithin at h
  split at h
  · next m =>
    split at h
    · next hm => cases h; exact ⟨m, rfl, hm, rfl⟩
    · cases h
  · cases h

/-- A frame is opened, unless the limit is exhausted. -/
theorem pushWithin_cases (stack : CallStack) (limit : Option Nat) (e : Expr) :
    (∃ m, limit = some m ∧ stack.pushWithin limit e = .error (.recursionLimit m)) ∨
      stack.pushWithin limit e = .ok (stack.push e) := by
  cases hp : stack.pushWithin limit e with
  | error cause =>
    obtain ⟨m, hm, _, rfl⟩ := eq_recursionLimit_of_pushWithin hp
    exact Or.inl ⟨m, hm, rfl⟩
  | ok inner =>
    rw [eq_push_of_pushWithin hp]
    exact Or.inr rfl

/-- Closes the innermost frame. -/
def pop (stack : CallStack) : Except Cause CallStack :=
  match stack with
  | ⟨[], _, _⟩ => .error .stackUnderflow
  | ⟨_ :: exprs, depth, h⟩ => .ok ⟨exprs, depth - 1, by simp [h]⟩

/-- Whether no frame is open. -/
def isEmpty (stack : CallStack) : Bool :=
  stack.exprs.isEmpty

/-- The expression of the innermost frame. -/
def top? (stack : CallStack) : Option Expr :=
  stack.exprs.head?

/-- Expressions with the depths of their frames, the first of which has the given depth. -/
def number : Nat → List Expr → List (Nat × Expr)
  | _, [] => []
  | depth, e :: exprs => (depth, e) :: number (depth - 1) exprs

/-- The frames, innermost first, each with its depth. -/
def frames (stack : CallStack) : List (Nat × Expr) :=
  number stack.depth stack.exprs

/-! ## Backtraces -/

/-- The number of frames that a backtrace keeps. -/
def keptFrames : Nat := 32

/-- The number of characters that a frame's text may have. -/
def frameWidth : Nat := 80

/-- A text that is too long for a frame, cut and marked. -/
def shorten (text : String) : String :=
  if text.length ≤ frameWidth then text else String.ofList (text.toList.take (frameWidth - 3)) ++ "..."

/-- The innermost frames as a backtrace. -/
def capture (stack : CallStack) : Backtrace where
  frames := (number stack.depth (stack.exprs.take keptFrames)).map fun (depth, e) => (depth, shorten e.display)
  omitted := stack.depth - keptFrames

/-- Gives a failure the backtrace of this stack, unless it has one or the stack is empty. -/
def attach (stack : CallStack) (failure : Failure) : Failure :=
  if failure.backtrace.isSome || stack.isEmpty then failure
  else { failure with backtrace := some stack.capture }

theorem attach_cause (stack : CallStack) (failure : Failure) : (stack.attach failure).cause = failure.cause := by
  unfold attach
  split <;> rfl

theorem attach_of_some (stack : CallStack) {failure : Failure} {trace : Backtrace}
    (h : failure.backtrace = some trace) : stack.attach failure = failure := by
  simp [attach, h]

theorem attach_of_none (stack : CallStack) (e : Expr) {failure : Failure} (h : failure.backtrace = none) :
    (stack.push e).attach failure = { failure with backtrace := some (stack.push e).capture } := by
  simp [attach, h, isEmpty, push]

end CallStack

end Treewalk
