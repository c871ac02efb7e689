import Treewalk.CallStack
import Treewalk.Value.Equality

/-!
# Runs

An evaluation is a `Run`: it takes a store and ends in an `Outcome`, which is a result, a failure, or the want of fuel.
The store holds the memo cells of the thunks made so far and counts the functions; it is kept when an evaluation
fails, because a cell that was filled before the failure stays filled.
-/

namespace Treewalk

/-- What an evaluation reads and changes beside its result. -/
structure Store where
  /-- The memo cells, empty until their thunk is evaluated by need. -/
  cells : Array (Option Value) := #[]
  /-- The identity of the next function. -/
  nextId : Nat := 0
  /-- Whether a comparison had to tell two functions apart. Nothing else can make a program's result depend on how often
  a thunk was evaluated. -/
  testedIdentity : Bool := false
  deriving Inhabited

/-- What a memo cell holds. -/
def Store.memo? (store : Store) (cell : Nat) : Option Value :=
  store.cells[cell]?.join

/-- A new cell is empty, as is a cell that does not exist. -/
theorem Store.memo?_push (store : Store) (cell : Nat) :
    { store with cells := store.cells.push none }.memo? cell = store.memo? cell := by
  by_cases h : cell = store.cells.size
  · simp [Store.memo?, h]
  · simp [Store.memo?, Array.getElem?_push, h]

theorem Store.memo?_set (store : Store) (cell other : Nat) (v : Value) :
    { store with cells := store.cells.set! cell (some v) }.memo? other =
      if cell = other ∧ cell < store.cells.size then some v else store.memo? other := by
  by_cases heq : cell = other
  · subst heq
    by_cases h : cell < store.cells.size <;> simp [Store.memo?, h]
  · simp [Store.memo?, heq]

/-- How an evaluation ends, and the store it leaves. -/
inductive Outcome (α : Type) where
  | done (a : α) (store : Store)
  | failed (failure : Failure) (store : Store)
  | outOfFuel

/-- The result of an evaluation that ends. -/
abbrev Result : Type := Except Failure Value

/-- A computation on the store. -/
def Run (α : Type) : Type := Store → Outcome α

namespace Run

@[inline] protected def pure (a : α) : Run α :=
  fun store => .done a store

@[inline] protected def bind (m : Run α) (f : α → Run β) : Run β :=
  fun store =>
    match m store with
    | .done a store => f a store
    | .failed failure store => .failed failure store
    | .outOfFuel => .outOfFuel

instance : Monad Run where
  pure := Run.pure
  bind := Run.bind

theorem pure_apply (a : α) (store : Store) : (pure a : Run α) store = .done a store := rfl

theorem bind_apply (m : Run α) (f : α → Run β) (store : Store) :
    (m >>= f) store =
      match m store with
      | .done a store => f a store
      | .failed failure store => .failed failure store
      | .outOfFuel => .outOfFuel := rfl

instance : LawfulMonad Run := LawfulMonad.mk' _
  (fun m => by
    funext store
    show (m >>= fun a => pure (id a)) store = m store
    rw [bind_apply]
    cases m store <;> rfl)
  (fun _ _ => rfl)
  (fun m f g => by
    funext store
    simp only [bind_apply]
    cases m store <;> rfl)

/-- Both parts of a run that ends well do. -/
theorem exists_of_bind_done {m : Run α} {f : α → Run β} {b : β} {before after : Store}
    (h : (m >>= f) before = .done b after) : ∃ a between, m before = .done a between ∧ f a between = .done b after := by
  rw [bind_apply] at h
  cases hm : m before with
  | done a between =>
    rw [hm] at h
    exact ⟨a, between, rfl, h⟩
  | failed | outOfFuel =>
    rw [hm] at h
    cases h

/-- A loop that ends has a result for each item. -/
theorem length_of_mapM {f : α → Run β} {as : List α} {bs : List β} {before after : Store}
    (h : as.mapM f before = .done bs after) : bs.length = as.length := by
  induction as generalizing bs before after with
  | nil =>
    rw [List.mapM_nil] at h
    cases h
    rfl
  | cons a as ih =>
    simp only [List.mapM_cons, bind_apply] at h
    split at h
    · split at h
      · next hbs =>
        cases h
        rw [List.length_cons, List.length_cons, ih hbs]
      · cases h
      · cases h
    · cases h
    · cases h

/-! ## Ways to end -/

/-- Fails, without a backtrace yet. -/
def fail (cause : Cause) : Run α :=
  fun store => .failed ⟨cause, none⟩ store

/-- The result of an operation on values. -/
def ofExcept : Except Cause α → Run α
  | .ok a => pure a
  | .error cause => fail cause

/-- The result of a computation that has been attempted. -/
def ofResult : Except Failure α → Run α
  | .ok a => pure a
  | .error failure => fun store => .failed failure store

/-- A computation whose failure is a result. -/
def attempt (m : Run α) : Run (Except Failure α) :=
  fun store =>
    match m store with
    | .done a store => .done (.ok a) store
    | .failed failure store => .done (.error failure) store
    | .outOfFuel => .outOfFuel

/-- Ends for want of fuel. -/
def outOfFuel : Run α :=
  fun _ => .outOfFuel

/-! ## The store -/

/-- An identity for a new function. -/
def freshId : Run Nat :=
  fun store => .done store.nextId { store with nextId := store.nextId + 1 }

/-- An empty cell for a new thunk. -/
def newCell : Run Nat :=
  fun store => .done store.cells.size { store with cells := store.cells.push none }

/-- What a cell holds. -/
def memo? (cell : Nat) : Run (Option Value) :=
  fun store => .done (store.memo? cell) store

/-- Keeps a value in a cell, unless it holds one, and gives what it holds. -/
def memoize (cell : Nat) (v : Value) : Run Value :=
  fun store =>
    match store.memo? cell with
    | some held => .done held store
    | none => .done v { store with cells := store.cells.set! cell (some v) }

/-- Notes whether a comparison had to tell two functions apart. -/
def noteIdentityTest (tested : Bool) : Run Unit :=
  fun store => .done () { store with testedIdentity := store.testedIdentity || tested }

/-! ## Frames -/

/-- Runs `body` with a frame for `e` on the stack. A failure that leaves the frame without a backtrace gets that of the
stack with this frame on top; where the limit refuses the frame, the failure has none yet. -/
def inFrame (limit : Option Nat) (e : Expr) (stack : CallStack) (body : CallStack → Run α) : Run α :=
  match stack.pushWithin limit e with
  | .error cause => fail cause
  | .ok stack => fun store =>
    match body stack store with
    | .failed failure store => .failed (stack.attach failure) store
    | outcome => outcome

/-- A frame in which a result is found has been opened. -/
theorem of_inFrame_done {limit : Option Nat} {e : Expr} {stack : CallStack} {body : CallStack → Run α} {a : α}
    {before after : Store} (h : inFrame limit e stack body before = .done a after) :
    body (stack.push e) before = .done a after := by
  unfold inFrame at h
  cases hpush : stack.pushWithin limit e with
  | error cause =>
    rw [hpush] at h
    cases h
  | ok inner =>
    obtain rfl := CallStack.eq_push_of_pushWithin hpush
    rw [hpush] at h
    dsimp only at h
    cases hbody : body (stack.push e) before with
    | done b between =>
      rw [hbody] at h
      exact h
    | failed | outOfFuel =>
      rw [hbody] at h
      cases h

end Run

end Treewalk
