import Treewalk.Proofs.Fuel

/-!
# Stores grow

A run adds to the store and takes nothing away: identities and memo cells are handed out in order, and a cell that is
filled keeps its value. By name, no cell is filled at all.

Growth is compositional (`compositional_grows`), so every evaluation and every application grows the store
(`grows_eval_apply`), from whatever store it starts.
-/

namespace Treewalk

open Run

/-! ## Growth -/

section Growth

/-- The store that a run leaves, if it ends. -/
def Outcome.store? {α : Type} : Outcome α → Option Store
  | .done _ store => some store
  | .failed _ store => some store
  | .outOfFuel => none

/-- What an evaluation by the strategy may make of a store. -/
structure Store.GrowsTo (strategy : Strategy) (before after : Store) : Prop where
  nextId : before.nextId ≤ after.nextId
  size : before.cells.size ≤ after.cells.size
  filled : ∀ {cell : Nat} {v : Value}, before.memo? cell = some v → after.memo? cell = some v
  byName : strategy = .byName → ∀ cell, after.memo? cell = before.memo? cell

/-- A run that grows every store. -/
def Run.Grows {α : Type} (strategy : Strategy) (m : Run α) : Prop :=
  ∀ before after, (m before).store? = some after → before.GrowsTo strategy after

variable {strategy : Strategy} {σ τ υ : Store}

theorem Store.GrowsTo.refl (strategy : Strategy) (σ : Store) : σ.GrowsTo strategy σ :=
  ⟨le_rfl, le_rfl, id, fun _ _ => rfl⟩

theorem Store.GrowsTo.trans (h : σ.GrowsTo strategy τ) (h' : τ.GrowsTo strategy υ) : σ.GrowsTo strategy υ where
  nextId := h.nextId.trans h'.nextId
  size := h.size.trans h'.size
  filled hv := h'.filled (h.filled hv)
  byName hs cell := (h'.byName hs cell).trans (h.byName hs cell)

theorem Store.GrowsTo.push (strategy : Strategy) (σ : Store) :
    σ.GrowsTo strategy { σ with cells := σ.cells.push none } where
  nextId := le_rfl
  size := by simp
  filled hv := by rw [Store.memo?_push, hv]
  byName _ cell := Store.memo?_push σ cell

/-- Filling an empty cell. -/
theorem Store.GrowsTo.fill {cell : Nat} (v : Value) (hempty : σ.memo? cell = none) :
    σ.GrowsTo .byNeed { σ with cells := σ.cells.set! cell (some v) } where
  nextId := le_rfl
  size := by simp
  filled {other u} hu := by
    rw [Store.memo?_set, if_neg, hu]
    rintro ⟨rfl, _⟩
    rw [hempty] at hu
    cases hu
  byName := nofun

end Growth

/-! ## Runs -/

section Runs

variable {strategy : Strategy} {α β : Type}

theorem grows_of_done {m : Run α} (h : ∀ σ, ∃ a τ, m σ = .done a τ ∧ σ.GrowsTo strategy τ) : m.Grows strategy := by
  intro before after hafter
  obtain ⟨a, τ, hm, hgrows⟩ := h before
  rw [hm] at hafter
  cases hafter
  exact hgrows

theorem Run.Grows.bind {m : Run α} {f : α → Run β} (hm : m.Grows strategy) (hf : ∀ a, (f a).Grows strategy) :
    (m >>= f).Grows strategy := by
  intro before after hafter
  rw [bind_apply] at hafter
  cases hr : m before with
  | outOfFuel =>
    rw [hr] at hafter
    cases hafter
  | failed failure middle =>
    rw [hr] at hafter
    cases hafter
    exact hm _ _ (congrArg Outcome.store? hr)
  | done a middle =>
    rw [hr] at hafter
    exact (hm before middle (congrArg Outcome.store? hr)).trans (hf a middle after hafter)

theorem grows_memoize (cell : Nat) (v : Value) : (memoize cell v).Grows .byNeed := by
  refine grows_of_done fun σ => ?_
  unfold memoize
  cases hmemo : σ.memo? cell with
  | some held => exact ⟨held, σ, rfl, .refl _ σ⟩
  | none => exact ⟨v, _, rfl, .fill v hmemo⟩

theorem compositional_grows (strategy : Strategy) :
    Compositional strategy fun m : Unit → Run _ => (m ()).Grows strategy where
  pure a := grows_of_done fun σ => ⟨a, σ, rfl, .refl _ σ⟩
  bind := .bind
  fail cause _ := by
    intro before after hafter
    cases hafter
    exact .refl _ before
  freshId := grows_of_done fun σ => ⟨_, _, rfl, Nat.le_succ _, le_rfl, id, fun _ _ => rfl⟩
  newCell := grows_of_done fun σ => ⟨_, _, rfl, .push _ σ⟩
  noteIdentityTest _ := grows_of_done fun σ => ⟨_, _, rfl, le_rfl, le_rfl, id, fun _ _ => rfl⟩
  memo? _ _ := grows_of_done fun σ => ⟨_, σ, rfl, .refl _ σ⟩
  memoize := by
    rintro rfl cell v
    exact grows_memoize cell v

theorem Run.Grows.inFrame {limit : Option Nat} {e : Expr} {stack : CallStack} {body : CallStack → Run α}
    (h : ∀ inner, (body inner).Grows strategy) : (inFrame limit e stack body).Grows strategy := by
  intro before after hafter
  unfold Run.inFrame at hafter
  cases hp : stack.pushWithin limit e with
  | error cause =>
    rw [hp] at hafter
    cases hafter
    exact .refl _ before
  | ok inner =>
    rw [hp] at hafter
    refine h inner before after ?_
    dsimp only at hafter
    cases hr : body inner before <;> rw [hr] at hafter <;> exact hafter

theorem Run.Grows.attempt {m : Run α} (h : m.Grows strategy) : m.attempt.Grows strategy := by
  intro before after hafter
  refine h before after ?_
  unfold Run.attempt at hafter
  cases hr : m before <;> rw [hr] at hafter <;> exact hafter

end Runs

/-! ## Evaluators -/

section Evaluators

/-- **Evaluations grow the store**, and so do applications. -/
theorem grows_eval_apply (config : Config) :
    ∀ n, (∀ e env stack, (eval config n e env stack).Grows config.strategy) ∧
      ∀ callee args stack, (apply config n callee args stack).Grows config.strategy :=
  (compositional_grows config.strategy).eval_apply .inFrame fun _ _ => nofun

end Evaluators

end Treewalk
