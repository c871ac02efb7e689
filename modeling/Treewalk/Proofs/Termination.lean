import Treewalk.Proofs.Fuel

/-!
# A depth limit makes every evaluation end

A family of runs, one for each amount of fuel, `Ends` if from every store it has a settled outcome: the same for all
fuel from some amount on, and not the want of fuel. This is compositional (`compositional_ends`).

Under a limit, evaluations end by induction on the number of frames that may still be opened (`ends_eval`).
Applications need an induction of their own, because a builtin calls no frame: `map`, `fold` and `filter` apply their
function in the frame they are called in, to accumulators of any size. What becomes smaller is the collection, since
it stands last among the arguments, and the last argument of every application that a combinator makes is an element
of its collection (`ends_combine`, `ends_apply`).
-/

namespace Treewalk

open Run Filter

/-! ## Settled outcomes -/

section Settled

/-- From every store, the runs have one outcome from some fuel on, which is not the want of fuel. -/
def Ends {α : Type} (ms : Nat → Run α) : Prop :=
  ∀ store, ∃ outcome, outcome ≠ .outOfFuel ∧ ∀ᶠ n in atTop, ms n store = outcome

theorem ends_of_ne {α : Type} {m : Run α} (h : ∀ store, m store ≠ .outOfFuel) : Ends fun _ => m :=
  fun store => ⟨m store, h store, Eventually.of_forall fun _ => rfl⟩

theorem Ends.bind {α β : Type} {ms : Nat → Run α} {fs : Nat → α → Run β} (hm : Ends ms)
    (hf : ∀ a, Ends fun n => fs n a) : Ends fun n => ms n >>= fs n := by
  intro store
  obtain ⟨outcome, hends, hm⟩ := hm store
  cases outcome with
  | outOfFuel => exact absurd rfl hends
  | failed failure store' =>
    refine ⟨.failed failure store', nofun, hm.mono fun n hn => ?_⟩
    show (ms n >>= fs n) store = _
    rw [bind_apply, hn]
  | done a store' =>
    obtain ⟨outcome', hends', hf⟩ := hf a store'
    refine ⟨outcome', hends', (hm.and hf).mono fun n hn => ?_⟩
    show (ms n >>= fs n) store = _
    rw [bind_apply, hn.1]
    exact hn.2

theorem compositional_ends (strategy : Strategy) : Compositional strategy Ends where
  pure _ := ends_of_ne fun _ h => by cases h
  bind := Ends.bind
  fail _ _ := ends_of_ne fun _ h => by cases h
  freshId := ends_of_ne fun _ h => by cases h
  newCell := ends_of_ne fun _ h => by cases h
  noteIdentityTest _ := ends_of_ne fun _ h => by cases h
  memo? _ _ := ends_of_ne fun _ h => by cases h
  memoize _ cell v := ends_of_ne fun store h => by
    unfold Run.memoize at h
    split at h <;> cases h

/-- A family ends if it does with one more unit of fuel. -/
theorem Ends.of_succ {α : Type} {ms : Nat → Run α} (h : Ends fun n => ms (n + 1)) : Ends ms := by
  intro store
  obtain ⟨outcome, hends, h⟩ := h store
  exact ⟨outcome, hends, eventually_of_succ h⟩

/-- Opening a frame ends if what is done in it does. -/
theorem Ends.inFrame {α : Type} {limit : Option Nat} {e : Expr} {stack : CallStack} {body : Nat → CallStack → Run α}
    (h : ∀ inner, stack.pushWithin limit e = .ok inner → Ends fun n => body n inner) :
    Ends fun n => inFrame limit e stack (body n) := by
  unfold Run.inFrame
  cases hp : stack.pushWithin limit e with
  | error cause => exact ends_of_ne fun _ => nofun
  | ok inner =>
    intro store
    obtain ⟨outcome, hends, h⟩ := h inner hp store
    cases outcome with
    | outOfFuel => exact absurd rfl hends
    | failed failure store' =>
      exact ⟨.failed (inner.attach failure) store', nofun, h.mono fun n hn => by simp only [hn]⟩
    | done a store' => exact ⟨.done a store', nofun, h.mono fun n hn => by simp only [hn]⟩

end Settled

/-! ## Applications in one frame -/

section Applications

theorem Value.sizeOf_lt_of_mem_elements {coll v : Value} (h : v ∈ coll.elements) : sizeOf v < sizeOf coll := by
  cases coll with
  | list vs =>
    have := List.sizeOf_lt_of_mem (show v ∈ vs from h)
    simp only [Value.list.sizeOf_spec]
    omega
  | dict pairs =>
    obtain ⟨⟨k, v'⟩, hp, rfl⟩ := List.mem_map.1 h
    have := List.sizeOf_lt_of_mem hp
    simp only [Value.dict.sizeOf_spec, Prod.mk.sizeOf_spec] at this ⊢
    omega
  | unit | int | bool | str | closure | primitive => cases h

variable {config : Config} {stack : CallStack}
  (heval : ∀ e env, Ends fun n => eval config n e env stack)
include heval

/-- An application whose last argument is `v` ends if every combinator over `v` does. -/
theorem ends_apply_of_last {v : Value}
    (hv : ∀ op func, Ends fun n => (interpreter config n).combine op func v stack) (callee : Value)
    (before : List Value) : Ends fun n => apply config n callee (before ++ [v]) stack := by
  have hP := compositional_ends config.strategy
  refine Ends.of_succ ?_
  refine hP.applyStep (interpreter config) (fun _ => stack) callee _ heval fun builtin collected _ => ?_
  refine hP.callBuiltin (interpreter config) (fun _ => stack) builtin _ fun op func coll hlast => ?_
  obtain rfl : v = coll := by simpa using hlast
  exact hv op func

/-- Combinators end, by induction on the collection. -/
theorem ends_combine (coll : Value) :
    ∀ op func, Ends fun n => (interpreter config n).combine op func coll stack := by
  intro op func
  refine (compositional_ends config.strategy).combine (interpreter config) (fun _ => stack) op func
    fun before v hv => ?_
  exact ends_apply_of_last heval (ends_combine v) func before
termination_by sizeOf coll
decreasing_by exact Value.sizeOf_lt_of_mem_elements hv

theorem ends_apply (callee : Value) (args : List Value) : Ends fun n => apply config n callee args stack := by
  have hP := compositional_ends config.strategy
  refine Ends.of_succ ?_
  refine hP.applyStep (interpreter config) (fun _ => stack) callee args heval fun builtin collected _ => ?_
  exact hP.callBuiltin (interpreter config) (fun _ => stack) builtin _ fun op func coll _ =>
    ends_combine heval coll op func

end Applications

/-! ## Evaluations under a limit -/

section Limited

variable {strategy : Strategy} {limit : Nat}

/-- Evaluations end, by induction on the number of frames that may still be opened. -/
theorem ends_eval : ∀ (room : Nat) (stack : CallStack), limit ≤ stack.depth + room →
    ∀ e env, Ends fun n => eval ⟨some limit, strategy⟩ n e env stack
  | 0, stack, hroom, e, env => by
    refine Ends.of_succ (Ends.inFrame fun inner hp => ?_)
    rw [CallStack.pushWithin_of_le (by omega)] at hp
    cases hp
  | room + 1, stack, hroom, e, env => by
    have hP := compositional_ends strategy
    refine Ends.of_succ (Ends.inFrame fun inner hp => ?_)
    obtain rfl := CallStack.eq_push_of_pushWithin hp
    have hdepth : (stack.push e).depth = stack.depth + 1 := rfl
    have heval := ends_eval room (stack.push e) (by omega)
    refine hP.evalStep (interpreter _) (fun _ => stack.push e) heval (fun _ => ⟨some limit, strategy⟩)
      (fun _ => rfl) (ends_apply heval) (fun decl env' => ?_) e env
    -- a declaration in a sequence opens one frame more
    refine Ends.inFrame fun inner hp => ?_
    obtain rfl := CallStack.eq_push_of_pushWithin hp
    have hdepth' : ((stack.push e).push (.declare decl)).depth = stack.depth + 1 + 1 := rfl
    exact hP.declare (interpreter _) (fun _ => (stack.push e).push (.declare decl))
      (ends_eval room _ (by omega)) decl env'

/-- **A depth limit guarantees termination**: under every limit and strategy, every evaluation and every application
ends, from every store and on every stack. -/
theorem ends_within_limit (limit : Nat) (strategy : Strategy) :
    (∀ e env stack store, ∃ outcome, Evaluates ⟨some limit, strategy⟩ e env stack store outcome) ∧
      ∀ callee args stack store, ∃ outcome, Applies ⟨some limit, strategy⟩ callee args stack store outcome := by
  have heval : ∀ stack e env, Ends fun n => eval ⟨some limit, strategy⟩ n e env stack :=
    fun stack => ends_eval limit stack (by omega)
  constructor
  · intro e env stack store
    obtain ⟨outcome, hends, h⟩ := heval stack e env store
    exact ⟨outcome, hends, h.exists⟩
  · intro callee args stack store
    obtain ⟨outcome, hends, h⟩ := ends_apply (heval stack) callee args store
    exact ⟨outcome, hends, h.exists⟩

end Limited

end Treewalk
