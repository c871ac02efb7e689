import Mathlib.Data.List.Forall2
import Treewalk.CallStack

/-!
# The frames of a call stack

A stack keeps expressions and their number. The depths of the frames are not kept: `CallStack.frames` counts them down
from the number of frames. A stack could also be a chain of frames in each of which its depth is stored when it is
opened, one more than that of the frame below (`link`), so that the number of frames is the depth in the innermost one
(`topDepth`).

* **Both are the same** after any moves: one move does the same to the frames as to the chain (`frames_move`), and so do
  any number of them (`frames_build`).
* **A backtrace** holds the first 32 of the frames, and counts the others (`length_capture`, `omitted_capture`).
* **A text** in it is whole up to 80 characters, and otherwise cut so that it has 80 with the mark of the cut
  (`shortened_shorten`).

Together: **the counts agree** (`stack_counts_agree`).
-/

namespace Treewalk.CallStack

/-! ## Depths -/

section Depths

theorem length_number (depth : Nat) (exprs : List Expr) : (number depth exprs).length = exprs.length := by
  induction exprs generalizing depth with
  | nil => rfl
  | cons e exprs ih => rw [number, List.length_cons, List.length_cons, ih]

theorem number_take (depth k : Nat) (exprs : List Expr) :
    number depth (exprs.take k) = (number depth exprs).take k := by
  induction exprs generalizing depth k with
  | nil => simp [number]
  | cons e exprs ih =>
    cases k with
    | zero => rfl
    | succ k => rw [List.take_succ_cons, number, number, List.take_succ_cons, ih]

/-- Depths are counted down to one. -/
theorem map_fst_number (exprs : List Expr) :
    (number exprs.length exprs).map (·.1) = (List.range' 1 exprs.length).reverse := by
  induction exprs with
  | nil => rfl
  | cons e exprs ih =>
    have hrange : List.range' 1 (exprs.length + 1) = List.range' 1 exprs.length ++ [exprs.length + 1] := by
      rw [List.range'_1_concat, Nat.add_comm]
    rw [List.length_cons, number, List.map_cons, Nat.add_sub_cancel, ih, hrange, List.reverse_append]
    rfl

variable (stack : CallStack)

theorem length_frames : stack.frames.length = stack.depth := by
  rw [frames, length_number, stack.depth_eq]

theorem map_fst_frames : stack.frames.map (·.1) = (List.range' 1 stack.depth).reverse := by
  rw [frames, stack.depth_eq, map_fst_number]

/-- **A frame that is opened gets the next depth**, and the frames below keep theirs. -/
theorem frames_push (e : Expr) : (stack.push e).frames = (stack.depth + 1, e) :: stack.frames := rfl

/-- Closing the frame that was opened last gives the stack back. -/
theorem pop_push (e : Expr) : (stack.push e).pop = .ok stack := rfl

end Depths

/-! ## Moves -/

section Moves

/-- What can be asked of a stack. -/
inductive Move where
  | push (e : Expr)
  | pushWithin (limit : Option Nat) (e : Expr)
  | pop

/-- The stack after a move. A move that is refused changes nothing. -/
def move (stack : CallStack) : Move → CallStack
  | .push e => stack.push e
  | .pushWithin limit e => (stack.pushWithin limit e).toOption.getD stack
  | .pop => stack.pop.toOption.getD stack

/-- The stack that moves build up from the empty one. -/
def build (moves : List Move) : CallStack :=
  moves.foldl move empty

/-- The depth that is stored in the innermost of some frames. -/
def topDepth : List (Nat × Expr) → Nat
  | [] => 0
  | (depth, _) :: _ => depth

/-- Puts a frame on others, and stores in it a depth one greater than that of the frame below. -/
def link (frames : List (Nat × Expr)) (e : Expr) : List (Nat × Expr) :=
  (topDepth frames + 1, e) :: frames

/-- What a move does to a chain of frames with stored depths. -/
def relink (frames : List (Nat × Expr)) : Move → List (Nat × Expr)
  | .push e => link frames e
  | .pushWithin none e => link frames e
  | .pushWithin (some limit) e => if limit ≤ topDepth frames then frames else link frames e
  | .pop => frames.tail

variable (stack : CallStack)

/-- The depth in the innermost frame is the number of frames. -/
theorem topDepth_frames : topDepth stack.frames = stack.depth := by
  obtain ⟨exprs, _, rfl⟩ := stack
  cases exprs <;> rfl

theorem frames_push_eq_link (e : Expr) : (stack.push e).frames = link stack.frames e := by
  rw [frames_push, link, topDepth_frames]

/-- **One move** does the same to the frames as to a chain of them. -/
theorem frames_move (m : Move) : (stack.move m).frames = relink stack.frames m := by
  cases m with
  | push e => exact stack.frames_push_eq_link e
  | pushWithin limit e =>
    cases limit with
    | none => exact stack.frames_push_eq_link e
    | some limit =>
      rw [move, relink, topDepth_frames]
      by_cases hfull : limit ≤ stack.depth
      · rw [pushWithin_of_le hfull, if_pos hfull]
        rfl
      · rw [pushWithin_of_lt (Nat.not_le.1 hfull), if_neg hfull]
        exact stack.frames_push_eq_link e
  | pop =>
    obtain ⟨exprs, _, rfl⟩ := stack
    cases exprs <;> rfl

/-- **Any number of moves** do the same to the frames as to a chain of them. -/
theorem frames_build (moves : List Move) : (build moves).frames = moves.foldl relink [] :=
  (List.foldl_hom frames fun stack m => (frames_move stack m).symm).symm

/-- A frame that a limit lets through is closed as any other. -/
theorem pop_of_pushWithin {inner : CallStack} {limit : Option Nat} {e : Expr}
    (h : stack.pushWithin limit e = .ok inner) : inner.pop = .ok stack := by
  rw [eq_push_of_pushWithin h, pop_push]

end Moves

/-! ## Backtraces -/

section Backtraces

/-- A text as a backtrace shows it: whole, if it has at most 80 characters, and otherwise its first 77 and three points,
which makes 80. -/
def Shortened (full text : String) : Prop :=
  if full.length ≤ 80 then text = full
  else text.toList = full.toList.take 77 ++ ['.', '.', '.'] ∧ text.length = 80

theorem shortened_shorten (full : String) : Shortened full (shorten full) := by
  unfold Shortened shorten frameWidth
  split
  · rfl
  · next hlong =>
    have htoList : (String.ofList (full.toList.take (80 - 3)) ++ "...").toList =
        full.toList.take 77 ++ ['.', '.', '.'] := by
      rw [String.toList_append, String.toList_ofList]
      rfl
    refine ⟨htoList, ?_⟩
    rw [← String.length_toList, htoList, List.length_append, List.length_take, String.length_toList]
    show min 77 full.length + 3 = 80
    omega

variable (stack : CallStack)

/-- A backtrace shows the innermost frames. -/
theorem capture_frames :
    stack.capture.frames = (stack.frames.take 32).map fun (depth, e) => (depth, shorten e.display) := by
  show (number stack.depth (stack.exprs.take 32)).map _ = _
  rw [number_take]
  rfl

theorem length_capture : stack.capture.frames.length = min 32 stack.depth := by
  rw [capture_frames, List.length_map, List.length_take, length_frames]

theorem omitted_capture : stack.capture.omitted + stack.capture.frames.length = stack.depth := by
  rw [length_capture]
  show stack.depth - 32 + min 32 stack.depth = stack.depth
  omega

/-- The outermost of 33 frames is left out. -/
example : (build (List.replicate 33 (.push .unit))).capture.omitted = 1 := rfl

end Backtraces

/-! ## Agreement -/

section Main

/-- **The counts of a call stack agree**, after any moves: those of its frames, of the depths in them, and of what a
backtrace keeps and omits. -/
theorem stack_counts_agree (moves : List Move) :
    let stack := build moves
    (stack.frames = moves.foldl relink [] ∧ stack.depth = topDepth stack.frames) ∧
    (stack.depth = stack.frames.length ∧ stack.frames.map (·.1) = (List.range' 1 stack.depth).reverse) ∧
    ((∀ e, (stack.push e).pop = .ok stack) ∧
      ∀ limit e inner, stack.pushWithin limit e = .ok inner → inner.pop = .ok stack) ∧
    stack.capture.frames.length = min 32 stack.depth ∧
    stack.capture.omitted + stack.capture.frames.length = stack.depth ∧
    List.Forall₂ (fun kept frame => kept.1 = frame.1 ∧ Shortened frame.2.display kept.2) stack.capture.frames
      (stack.frames.take 32) := by
  intro stack
  refine ⟨⟨frames_build moves, stack.topDepth_frames.symm⟩, ⟨stack.length_frames.symm, stack.map_fst_frames⟩,
    ⟨stack.pop_push, fun _ _ _ => stack.pop_of_pushWithin⟩, stack.length_capture, stack.omitted_capture, ?_⟩
  rw [stack.capture_frames, List.forall₂_map_left_iff]
  exact List.forall₂_same.2 fun frame _ => ⟨rfl, shortened_shorten frame.2.display⟩

end Main

end Treewalk.CallStack
