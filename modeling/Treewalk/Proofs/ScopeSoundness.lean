import Treewalk.Proofs.Invariants
import Treewalk.Proofs.Renaming

/-!
# Scope soundness

The free variables of an expression are all that its evaluation can miss (`scope_sound`). In an environment of closed
bindings that binds them, no evaluation ends because a name is unbound, and what it returns, binds or keeps in a memo
cell is closed in its turn. A run that goes on forever evaluates in closed environments and finds closed values as well.

Closed values are those whose functions and thunks find their free variables bound in the environments they captured,
and find closed values there. There is one exception (`lazy_recursion_keeps_empty_name_free`): a recursive function
that is built lazily under the empty name makes a thunk that looks for the empty name, which cannot be bound. Nothing
can look that thunk up, so it is enough that it finds what is free in the function (`Expr.freeAs`).
-/

namespace Treewalk

/-- What is free in a function or a thunk has to be bound, and nothing else is asked. -/
def closedness : Discipline where
  lexical := True
  keys := .any
  awaits _ _ := True
  awaits_of_lt _ := trivial

/-- A value is closed if each function and thunk inside it, or in the memo cells of its thunks, finds bound what it has
to in the environment that it has captured. -/
abbrev Value.ClosedIn (store : Store) (v : Value) : Prop :=
  v.ObeysIn closedness store

/-- Every binding of the environment is closed. -/
abbrev Env.ClosedIn (store : Store) (r : Env) : Prop :=
  Env.ObeysIn closedness store r

/-- **Scope soundness.** Where the bindings are closed and bind what is free in an expression, its evaluation finds no
name unbound, and its value and the values of the memo cells that it fills are closed. -/
theorem scope_sound (config : Config) {e : Expr} {env : Env} (stack : CallStack) {store : Store}
    (henv : Env.ClosedIn store env) (hfree : ∀ name ∈ e.free, (env.lookup? name).isSome) :
    (∀ failure after, Evaluates config e env stack store (.failed failure after) →
        failure.cause.category ≠ .unboundVariable) ∧
      (∀ v after, Evaluates config e env stack store (.done v after) → v.ClosedIn after) ∧
      (∀ outcome after, Evaluates config e env stack store outcome → outcome.store? = some after →
        ∀ cell v, store.memo? cell = none → after.memo? cell = some v → v.ClosedIn after) ∧
      ∀ alarm n, (watched closedness alarm config n).eval e env stack store = eval config n e env stack store := by
  obtain ⟨hwatched, hbound, hvalue, hcells⟩ := closedness.kept config stack henv fun _ => hfree
  exact ⟨fun failure after h => hbound failure after h trivial, hvalue, hcells, hwatched⟩

/-- A recursive function that is built lazily, and applied to one of its two arguments, over a thunk of the
environment. -/
theorem scope_sound_curried :
    let e : Expr := .letIn (.lazyRecursive "f" (.lambda ["x", "y"] (.apply (.symbol "f") [.symbol "z", .symbol "x"])))
      (.apply (.symbol "f") [.integer 1])
    let env : Env := [("z", .thunk 0 (.symbol "u") [("u", .value (.int 2))])]
    ∃ v after, Evaluates ⟨none, .byNeed⟩ e env CallStack.empty { cells := #[none] } (.done v after) ∧
      v.ClosedIn after := by
  intro e env
  have henv : Env.ClosedIn { cells := #[none] } env := by
    refine ⟨{0}, ?_, ?_⟩
    · rintro cell rfl v hv
      cases hv
    · rintro name b hb
      simp only [env, List.lookup_cons, List.lookup_nil] at hb
      split at hb
      · cases hb
        refine .thunk rfl (fun _ name hname => ?_) fun name b hb => ?_
        · rw [List.mem_singleton.1 (Expr.freeAs_subset _ _ hname)]
          rfl
        · simp only [List.lookup_cons, List.lookup_nil] at hb
          split at hb
          · cases hb
            exact .value (.int 2)
          · cases hb
      · cases hb
  have hfree : ∀ name ∈ e.free, (env.lookup? name).isSome := by
    intro name hname
    rw [show e.free = ["z"] by decide, List.mem_singleton] at hname
    rw [hname]
    rfl
  obtain ⟨v, after, heval⟩ :
      ∃ v after, eval ⟨none, .byNeed⟩ 5 e env CallStack.empty { cells := #[none] } = .done v after := ⟨_, _, rfl⟩
  have h : Evaluates ⟨none, .byNeed⟩ e env CallStack.empty { cells := #[none] } (.done v after) := ⟨nofun, 5, heval⟩
  exact ⟨v, after, h, (scope_sound _ _ henv hfree).2.1 v after h⟩

/-- A recursive function that is built lazily under the empty name: nothing is free in the expression, but its value
holds a thunk that looks for the empty name. -/
theorem lazy_recursion_keeps_empty_name_free :
    let e : Expr := .letIn (.lazyRecursive "" (.lambda ["x"] (.symbol "x"))) (.lambda ["y"] (.symbol "y"))
    e.free = [] ∧ ∃ v after cell t captured, Evaluates ⟨none, .byNeed⟩ e [] CallStack.empty {} (.done v after) ∧
      .thunk (cell, t, captured) ∈ v.marks ∧ "" ∈ t.free ∧ Env.lookup? captured "" = none := by
  intro e
  let builder : Expr := .letIn (.recursive "" (.lambda ["x"] (.symbol "x"))) (.symbol "")
  let v : Value := .closure 0 none ["y"] (.symbol "y") [("", .thunk 0 builder [])]
  have heval : Evaluates ⟨none, .byNeed⟩ e [] CallStack.empty {} (.done v { cells := #[none], nextId := 1 }) :=
    ⟨nofun, 2, rfl⟩
  exact ⟨by decide, v, _, 0, builder, [], heval, by simp [v, Value.marks, Env.marks, Binding.marks], by decide, rfl⟩

end Treewalk
