import Treewalk.Proofs.Fuel

/-!
# Tests of identity

The store notes that a comparison had to tell two functions apart, and no run takes the note back (`Run.Remembers`). So
a run that leaves a store without the note has not tested identities at any point, in any of its parts.

Remembering is compositional. It is a class here, because it is asked of every part of a run that is cut into two.

What has been noted decides nothing: a run takes the same course with the note and without it (`Run.Blind`).
-/

namespace Treewalk

open Run

/-- The store that an outcome leaves has the note, if it leaves one. -/
def Outcome.Tested {α : Type} : Outcome α → Prop
  | .done _ store | .failed _ store => store.testedIdentity = true
  | .outOfFuel => True

theorem Outcome.not_tested_done {α : Type} {a : α} {store : Store} :
    ¬(Outcome.done a store).Tested ↔ store.testedIdentity = false :=
  Bool.not_eq_true _ ▸ Iff.rfl

/-- A run does not take the note back. -/
class Run.Remembers {α : Type} (m : Run α) : Prop where
  tested : ∀ store, store.testedIdentity = true → (m store).Tested

/-- A run that leaves a store without the note started without it. -/
theorem Run.Remembers.untested {α : Type} {m : Run α} [m.Remembers] {store : Store} (h : ¬(m store).Tested) :
    store.testedIdentity = false := by
  rw [← Bool.not_eq_true]
  exact fun htested => h (tested store htested)

/-- An evaluator whose runs do not take the note back. -/
class Interpreter.Remembers (I : Interpreter) : Prop where
  eval : ∀ e env stack, (I.eval e env stack).Remembers
  apply : ∀ callee args stack, (I.apply callee args stack).Remembers

/-! ## Runs -/

section Runs

variable {α β : Type}

instance (a : α) : (pure a : Run α).Remembers := ⟨fun _ h => h⟩

instance Run.Remembers.bind (m : Run α) (f : α → Run β) [m.Remembers] [∀ a, (f a).Remembers] :
    (m >>= f).Remembers where
  tested store h := by
    have hm := Remembers.tested (m := m) store h
    rw [bind_apply]
    cases hr : m store with
    | outOfFuel => trivial
    | failed failure store' => rw [hr] at hm; exact hm
    | done a store' => rw [hr] at hm; exact Remembers.tested store' hm

instance (cause : Cause) : (fail cause : Run α).Remembers := ⟨fun _ h => h⟩

instance : freshId.Remembers := ⟨fun _ h => h⟩

instance : newCell.Remembers := ⟨fun _ h => h⟩

instance (cell : Nat) : (memo? cell).Remembers := ⟨fun _ h => h⟩

instance (cell : Nat) (v : Value) : (memoize cell v).Remembers where
  tested store h := by
    unfold memoize
    split <;> exact h

instance (tested : Bool) : (noteIdentityTest tested).Remembers where
  tested store h := by
    show (store.testedIdentity || tested) = true
    rw [h, Bool.true_or]

instance (limit : Option Nat) (e : Expr) (stack : CallStack) (body : CallStack → Run α)
    [∀ inner, (body inner).Remembers] : (inFrame limit e stack body).Remembers where
  tested store h := by
    unfold inFrame
    cases stack.pushWithin limit e with
    | error cause => exact h
    | ok inner =>
      have hb := Remembers.tested (m := body inner) store h
      dsimp only
      cases hr : body inner store with
      | outOfFuel => trivial
      | failed failure store' => rw [hr] at hb; exact hb
      | done a store' => rw [hr] at hb; exact hb

instance (m : Run α) [m.Remembers] : m.attempt.Remembers where
  tested store h := by
    have hm := Remembers.tested (m := m) store h
    unfold attempt
    cases hr : m store <;> rw [hr] at hm <;> exact hm

instance (result : Except Failure α) : (ofResult result).Remembers where
  tested store h := by cases result <;> exact h

theorem compositional_remembers (strategy : Strategy) :
    Compositional strategy fun m : Unit → Run _ => (m ()).Remembers where
  pure _ := inferInstance
  bind hm hf := @Remembers.bind _ _ _ _ hm hf
  fail _ _ := inferInstance
  freshId := inferInstance
  newCell := inferInstance
  noteIdentityTest _ := inferInstance
  memo? _ _ := inferInstance
  memoize _ _ _ := inferInstance

instance (x : Except Cause α) : (ofExcept x).Remembers :=
  match x with
  | .ok a => inferInstanceAs (pure a : Run α).Remembers
  | .error cause => inferInstanceAs (fail cause : Run α).Remembers

instance (as : List α) (f : α → Run β) [∀ a, (f a).Remembers] : (as.mapM f).Remembers :=
  (compositional_remembers .byName).mapM (f := fun _ => f) fun _ _ => inferInstance

instance (as : List α) (f : β → α → Run β) (b : β) [∀ b a, (f b a).Remembers] : (as.foldlM f b).Remembers :=
  (compositional_remembers .byName).foldlM (f := fun _ => f) b fun _ _ _ => inferInstance

instance (as : List α) (f : α → Run Bool) (kept : List α) [∀ a, (f a).Remembers] : (as.filterAuxM f kept).Remembers :=
  (compositional_remembers .byName).filterAuxM (f := fun _ => f) kept fun _ _ => inferInstance

end Runs

/-! ## Evaluators -/

section Evaluators

instance (op : Unary) (v : Value) : (unary op v).Remembers :=
  inferInstanceAs (ofExcept _).Remembers

instance (op : Binary) (a b : Value) : (binary op a b).Remembers :=
  (compositional_remembers .byName).binary op a b

instance (key value dict : Value) : (insert key value dict).Remembers :=
  (compositional_remembers .byName).insert key value dict

instance (dict : Dict) (key value : Value) : (addPair dict key value).Remembers :=
  (compositional_remembers .byName).addPair dict key value

variable (I : Interpreter) [h : I.Remembers]

instance (e : Expr) (env : Env) (stack : CallStack) : (I.eval e env stack).Remembers :=
  h.eval e env stack

instance (callee : Value) (args : List Value) (stack : CallStack) : (I.apply callee args stack).Remembers :=
  h.apply callee args stack

instance (predicate v : Value) (stack : CallStack) : (I.test predicate v stack).Remembers :=
  (compositional_remembers .byName).test (fun _ => I) (fun _ => stack) inferInstance

instance (op : Combinator) (func coll : Value) (stack : CallStack) : (I.combine op func coll stack).Remembers :=
  (compositional_remembers .byName).combine (fun _ => I) (fun _ => stack) op func fun _ _ _ => inferInstance

instance (decl : Decl) (env : Env) (stack : CallStack) : (I.declare decl env stack).Remembers :=
  (compositional_remembers .byName).declare (fun _ => I) (fun _ => stack) (fun _ _ => inferInstance) decl env

instance (limit : Option Nat) (e : Expr) (env : Env) (stack : CallStack) :
    (I.sequenceItem limit e env stack).Remembers :=
  (compositional_remembers .byName).sequenceItem (fun _ => I) (fun _ => stack) (fun _ _ => inferInstance)
    (fun _ => ⟨limit, .byName⟩) (fun _ _ => inferInstance) e env

instance (callee : Value) (args : List Value) (stack : CallStack) : (I.applyStep callee args stack).Remembers := by
  have hP := compositional_remembers .byName
  refine hP.applyStep (fun _ => I) (fun _ => stack) callee args (fun _ _ => inferInstance) fun builtin collected _ => ?_
  exact hP.callBuiltin (fun _ => I) (fun _ => stack) builtin _ fun op func coll _ => inferInstance

instance (config : Config) (e : Expr) (env : Env) (stack : CallStack) : (I.evalStep config e env stack).Remembers :=
  (compositional_remembers config.strategy).evalStep (fun _ => I) (fun _ => stack) (fun _ _ => inferInstance)
    (fun _ => config) (fun _ => rfl) (fun _ _ => inferInstance) (fun _ _ => inferInstance) e env

instance remembers_interpreter (config : Config) : ∀ n, (interpreter config n).Remembers
  | 0 => ⟨fun _ _ _ => ⟨fun _ _ => trivial⟩, fun _ _ _ => ⟨fun _ _ => trivial⟩⟩
  | n + 1 => by
    have := remembers_interpreter config n
    refine ⟨fun e env stack => ?_, fun callee args stack => ?_⟩
    · show (eval config (n + 1) e env stack).Remembers
      rw [eval_succ]
      infer_instance
    · show (apply config (n + 1) callee args stack).Remembers
      rw [apply_succ]
      infer_instance

end Evaluators

/-! ## The note decides nothing -/

section Blind

variable {α β : Type}

/-- The store with one more note. -/
def Store.noted (tested : Bool) (store : Store) : Store :=
  { store with testedIdentity := store.testedIdentity || tested }

/-- The outcome with one more note in the store that it leaves. -/
def Outcome.noted (tested : Bool) : Outcome α → Outcome α
  | .done a store => .done a (store.noted tested)
  | .failed failure store => .failed failure (store.noted tested)
  | .outOfFuel => .outOfFuel

/-- A run takes the same course whatever has been noted before. -/
def Run.Blind (m : Run α) : Prop :=
  ∀ tested store, m (store.noted tested) = (m store).noted tested

theorem Run.Blind.bind {m : Run α} {f : α → Run β} (hm : m.Blind) (hf : ∀ a, (f a).Blind) : (m >>= f).Blind := by
  intro tested store
  rw [bind_apply, bind_apply, hm tested store]
  cases m store with
  | outOfFuel => rfl
  | failed failure store' => rfl
  | done a store' => exact hf a tested store'

theorem compositional_blind (strategy : Strategy) : Compositional strategy fun m : Unit → Run _ => (m ()).Blind where
  pure _ _ _ := rfl
  bind := .bind
  fail _ _ _ _ := rfl
  freshId _ _ := rfl
  newCell _ _ := rfl
  noteIdentityTest tested other store := by
    simp only [Run.noteIdentityTest, Store.noted, Outcome.noted, Bool.or_right_comm]
  memo? _ _ _ _ := rfl
  memoize _ cell v tested store := by
    have hmemo : (store.noted tested).memo? cell = store.memo? cell := rfl
    simp only [Run.memoize, hmemo]
    cases store.memo? cell <;> rfl

theorem Run.Blind.inFrame {limit : Option Nat} {e : Expr} {stack : CallStack} {body : CallStack → Run α}
    (h : ∀ inner, (body inner).Blind) : (inFrame limit e stack body).Blind := by
  intro tested store
  unfold Run.inFrame
  cases stack.pushWithin limit e with
  | error cause => rfl
  | ok inner =>
    dsimp only
    rw [h inner tested store]
    cases body inner store <;> rfl

/-- Evaluations and applications do not see the note. -/
theorem blind_eval_apply (config : Config) :
    ∀ n, (∀ e env stack, (eval config n e env stack).Blind) ∧
      ∀ callee args stack, (apply config n callee args stack).Blind :=
  (compositional_blind config.strategy).eval_apply .inFrame fun _ _ => rfl

/-- An evaluation gives the same value whatever has been noted before it. -/
theorem Evaluates.noted {config : Config} {e : Expr} {env : Env} {stack : CallStack} {store after : Store} {v : Value}
    (h : Evaluates config e env stack store (.done v after)) (tested : Bool) :
    Evaluates config e env stack (store.noted tested) (.done v (after.noted tested)) := by
  obtain ⟨-, n, hn⟩ := h
  refine ⟨nofun, n, ?_⟩
  rw [(blind_eval_apply config n).1 e env stack tested store, hn]
  rfl

end Blind

end Treewalk
