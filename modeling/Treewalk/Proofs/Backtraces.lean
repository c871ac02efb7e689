import Treewalk.Proofs.Fuel
import Treewalk.Proofs.Handlers

/-!
# Backtraces

Without a limit, nothing but a backtrace depends on the stack that an evaluation starts on.

A family of runs, one for each stack and each handler of failures, is `Run.Uniform` when neither decides whether the
runs end nor how, and when a failure leaves the frames of a chain of expressions that is the same for all of them.

* Uniformity is compositional (`compositional_uniform`), and a frame puts its expression at the end of the chain
  (`Run.Uniform.frame`), so evaluations are uniform (`uniform_eval_apply`).
* A failed evaluation `Unwinds` the chain of the frames that the failure leaves. There is only one such chain
  (`Unwinds.unique`): its first expression is the one in whose frame the failure arises, its last one the expression
  that is evaluated.
* **Exact backtraces** (`stack_shows_in_backtrace_only`): the backtrace is that of the stack with this chain on it, so
  the innermost frame has attached it and the others have left it alone.
-/

namespace Treewalk

open Run

/-! ## Uniform runs -/

section Uniform

/-- What surrounds a run. -/
structure Surroundings where
  /-- What frames do to failures. -/
  handle : Handler
  stack : CallStack

/-- What becomes of a failure for the cause that leaves the frames of a chain. -/
def Surroundings.unwind (s : Surroundings) (chain : List Expr) (cause : Cause) : Failure :=
  s.stack.unwind s.handle chain ⟨cause, none⟩

/-- Runs in all surroundings that end alike: none of them ends, or they have one result, or they fail for one cause and
in the frames of one chain. All of them leave the same store. -/
def Run.Uniform {α : Type} (m : Surroundings → Run α) : Prop :=
  ∀ store, (∀ s, m s store = .outOfFuel) ∨
    (∃ a store', ∀ s, m s store = .done a store') ∨
    ∃ cause chain store', ∀ s, m s store = .failed (s.unwind chain cause) store'

/-- A run that does not look at the surroundings and does not fail. -/
theorem uniform_of_done {α : Type} {m : Run α} (h : ∀ store, ∃ a store', m store = .done a store') :
    Uniform fun _ => m := by
  intro store
  obtain ⟨a, store', hm⟩ := h store
  exact Or.inr (Or.inl ⟨a, store', fun _ => hm⟩)

theorem Run.Uniform.bind {α β : Type} {m : Surroundings → Run α} {f : Surroundings → α → Run β} (hm : Uniform m)
    (hf : ∀ a, Uniform fun s => f s a) : Uniform fun s => m s >>= f s := by
  intro store
  simp only [bind_apply]
  rcases hm store with h | ⟨a, store', h⟩ | ⟨cause, chain, store', h⟩
  · refine Or.inl fun s => ?_
    rw [h s]
  · simp only [h]
    exact hf a store'
  · refine Or.inr (Or.inr ⟨cause, chain, store', fun s => ?_⟩)
    rw [h s]

theorem compositional_uniform (strategy : Strategy) :
    Compositional strategy fun m : Surroundings → Run _ => Uniform m where
  pure a := uniform_of_done fun store => ⟨a, store, rfl⟩
  bind := .bind
  fail cause _ := fun store => Or.inr (Or.inr ⟨cause, [], store, fun _ => rfl⟩)
  freshId := uniform_of_done fun _ => ⟨_, _, rfl⟩
  newCell := uniform_of_done fun _ => ⟨_, _, rfl⟩
  noteIdentityTest _ := uniform_of_done fun _ => ⟨_, _, rfl⟩
  memo? _ _ := uniform_of_done fun _ => ⟨_, _, rfl⟩
  memoize _ cell v := uniform_of_done fun store => by
    dsimp only [Run.memoize]
    split
    · exact ⟨_, _, rfl⟩
    · exact ⟨_, _, rfl⟩

/-- Runs in surroundings with one more frame. -/
def Run.framed {α : Type} (e : Expr) (body : Surroundings → Run α) (s : Surroundings) : Run α :=
  inFrameHandling s.handle none e s.stack fun inner => body ⟨s.handle, inner⟩

/-- Runs that are uniform with a frame open are uniform when they open it, and the frame is the outermost one of the
chain. -/
theorem Run.Uniform.frame {α : Type} {body : Surroundings → Run α} (e : Expr) (h : Uniform body) (store : Store) :
    (∀ s, framed e body s store = .outOfFuel) ∨
      (∃ a store', ∀ s, framed e body s store = .done a store') ∨
      ∃ cause chain store', ∀ s, framed e body s store = .failed (s.unwind (chain ++ [e]) cause) store' := by
  simp only [framed, inFrameHandling, CallStack.pushWithin_none]
  rcases h store with h | ⟨a, store', h⟩ | ⟨cause, chain, store', h⟩
  · refine Or.inl fun s => ?_
    rw [h]
  · refine Or.inr (Or.inl ⟨a, store', fun s => ?_⟩)
    rw [h]
  · refine Or.inr (Or.inr ⟨cause, chain, store', fun s => ?_⟩)
    rw [h]
    exact congrArg (Outcome.failed · store') (CallStack.unwind_append s.handle s.stack chain e _).symm

theorem Run.Uniform.framed {α : Type} {body : Surroundings → Run α} (e : Expr) (h : Uniform body) :
    Uniform (framed e body) := by
  intro store
  rcases h.frame e store with h | h | ⟨cause, chain, store', h⟩
  · exact Or.inl h
  · exact Or.inr (Or.inl h)
  · exact Or.inr (Or.inr ⟨cause, chain ++ [e], store', h⟩)

end Uniform

/-! ## Evaluations -/

section Evaluations

/-- The evaluator in the given surroundings, without a limit. -/
def Surroundings.interpreter (strategy : Strategy) (n : Nat) (s : Surroundings) : Interpreter :=
  interpreterHandling s.handle ⟨none, strategy⟩ n

/-- Evaluations with the given fuel are uniform, and so are applications. -/
def UniformWithin (strategy : Strategy) (n : Nat) : Prop :=
  (∀ e env, Uniform fun s => (s.interpreter strategy n).eval e env s.stack) ∧
    ∀ callee args, Uniform fun s => (s.interpreter strategy n).apply callee args s.stack

/-- One step of the evaluator is uniform, if the evaluations of the parts are. -/
theorem uniform_evalStep {strategy : Strategy} {n : Nat} (h : UniformWithin strategy n) (e : Expr) (env : Env) :
    Uniform fun s => (s.interpreter strategy n).evalStepHandling s.handle ⟨none, strategy⟩ e env s.stack := by
  obtain ⟨heval, happly⟩ := h
  have hP := compositional_uniform strategy
  have hitem : ∀ x env', Uniform fun s =>
      (s.interpreter strategy n).sequenceItemHandling s.handle none x env' s.stack := by
    intro x env'
    cases x with
    | declare decl =>
      have hdeclare := hP.declare (Surroundings.interpreter strategy n) Surroundings.stack heval decl env'
      exact hP.bind (Uniform.framed (.declare decl) hdeclare) fun extended => hP.pure _
    | _ => exact hP.bind (heval _ env') fun v => hP.pure _
  by_cases hsequence : ∃ items, e = .sequence items
  · obtain ⟨items, rfl⟩ := hsequence
    simp only [Interpreter.evalStepHandling, Interpreter.sequenceHandling]
    split
    · exact hP.fail _ (by decide)
    · exact hP.bind (hP.foldlM (env, Value.unit) fun state x _ => hitem x state.1) fun state => hP.pure state.2
  · have he : ∀ items, e ≠ .sequence items := not_exists.1 hsequence
    simp only [Interpreter.evalStepHandling_of_not_sequence _ _ he]
    exact hP.evalStep_of_not_sequence (Surroundings.interpreter strategy n) Surroundings.stack heval
      (fun _ => ⟨none, strategy⟩) (fun _ => rfl) happly he env

/-- **Evaluations are uniform**, and so are applications. -/
theorem uniform_eval_apply (strategy : Strategy) : ∀ n, UniformWithin strategy n
  | 0 => ⟨fun _ _ _ => Or.inl fun _ => rfl, fun _ _ _ => Or.inl fun _ => rfl⟩
  | n + 1 => by
    have h := uniform_eval_apply strategy n
    constructor
    · intro e env
      exact Uniform.framed e (uniform_evalStep h e env)
    · intro callee args
      have hP := compositional_uniform strategy
      let I := Surroundings.interpreter strategy n
      refine hP.applyStep I Surroundings.stack callee args h.1 fun builtin collected _ => ?_
      refine hP.callBuiltin I Surroundings.stack builtin _ fun op func coll _ => ?_
      exact hP.combine I Surroundings.stack op func fun before v _ => h.2 func (before ++ [v])

/-- The evaluation fails for the cause, and the failure leaves the frames of the chain, the first one first: on every
stack, and whatever frames do to it. -/
def Unwinds (config : Config) (n : Nat) (e : Expr) (env : Env) (store : Store) (cause : Cause) (chain : List Expr)
    (after : Store) : Prop :=
  ∀ (handle : Handler) (stack : CallStack), (interpreterHandling handle config n).eval e env stack store =
    .failed (stack.unwind handle chain ⟨cause, none⟩) after

variable {config : Config} {n : Nat} {e : Expr} {env : Env} {store : Store} {cause cause' : Cause}
  {chain other : List Expr} {after after' : Store}

/-- The frames that a failure leaves are told by notes of the stack where it arose. -/
theorem Unwinds.unique (hchain : chain ≠ []) (h : Unwinds config n e env store cause chain after)
    (h' : Unwinds config n e env store cause' other after') : other = chain := by
  -- a failure that leaves no frame would have no note
  have hother : other ≠ [] := by
    rintro rfl
    have hfailed := (h (CallStack.attachNote fun _ => ⟨[], 0⟩) .empty).symm.trans (h' _ _)
    rw [CallStack.unwind_attachNote _ _ _ hchain] at hfailed
    injection hfailed with hfailure
    injection hfailure with _ hnote
    cases hnote
  refine CallStack.pushAll_injective .empty (CallStack.eq_of_notes fun note => ?_)
  have hfailed := (h (CallStack.attachNote note) .empty).symm.trans (h' _ _)
  rw [CallStack.unwind_attachNote _ _ _ hchain, CallStack.unwind_attachNote _ _ _ hother] at hfailed
  injection hfailed with hfailure
  injection hfailure with _ hnote
  exact Option.some.inj hnote

/-- A failure has the backtrace of the stack with the frames on it that the failure leaves. -/
theorem Unwinds.evaluates (hchain : chain ≠ []) (h : Unwinds config n e env store cause chain after)
    (stack : CallStack) :
    Evaluates config e env stack store (.failed ⟨cause, some (stack.pushAll chain).capture⟩ after) := by
  refine ⟨nofun, n, ?_⟩
  have heval := h CallStack.attach stack
  rw [interpreterHandling_attach, CallStack.unwind_attach stack cause hchain] at heval
  exact heval

/-- **The stack shows in backtraces only, and backtraces are exact.** Without a limit, an evaluation ends on no stack,
or with one value on all of them, or with a failure that leaves the same frames, from where it arises to `e`. -/
theorem stack_shows_in_backtrace_only (strategy : Strategy) (e : Expr) (env : Env) (store : Store) :
    (∀ stack outcome, ¬Evaluates ⟨none, strategy⟩ e env stack store outcome) ∨
      (∃ v store', ∀ stack, Evaluates ⟨none, strategy⟩ e env stack store (.done v store')) ∨
      ∃ cause chain store', chain.getLast? = some e ∧
        (∃ n, Unwinds ⟨none, strategy⟩ n e env store cause chain store' ∧
          ∀ cause' other after, Unwinds ⟨none, strategy⟩ n e env store cause' other after → other = chain) ∧
        ∀ stack, Evaluates ⟨none, strategy⟩ e env stack store
          (.failed ⟨cause, some (stack.pushAll chain).capture⟩ store') := by
  by_cases hends : ∃ n stack, eval ⟨none, strategy⟩ n e env stack store ≠ .outOfFuel
  · obtain ⟨n, stack₀, hn⟩ := hends
    cases n with
    | zero => exact absurd rfl hn
    | succ n =>
      have hattach : ∀ stack, (Surroundings.mk CallStack.attach stack).interpreter strategy (n + 1) =
          interpreter ⟨none, strategy⟩ (n + 1) := fun _ => interpreterHandling_attach _ _
      -- the frame of `e` is the last that a failure leaves
      rcases (uniform_evalStep (uniform_eval_apply strategy n) e env).frame e store with
        h | ⟨v, store', h⟩ | ⟨cause, chain, store', h⟩
      · refine absurd ?_ hn
        exact (congrArg (fun I => I.eval e env stack₀ store) (hattach stack₀)).symm.trans (h ⟨CallStack.attach, stack₀⟩)
      · refine Or.inr (Or.inl ⟨v, store', fun stack => ⟨nofun, n + 1, ?_⟩⟩)
        exact (congrArg (fun I => I.eval e env stack store) (hattach stack)).symm.trans (h ⟨CallStack.attach, stack⟩)
      · have hunwinds : Unwinds ⟨none, strategy⟩ (n + 1) e env store cause (chain ++ [e]) store' :=
          fun handle stack => h ⟨handle, stack⟩
        have hchain : chain ++ [e] ≠ [] := List.concat_ne_nil e chain
        exact Or.inr (Or.inr ⟨cause, chain ++ [e], store', List.getLast?_concat,
          ⟨n + 1, hunwinds, fun _ _ _ hother => hunwinds.unique hchain hother⟩, hunwinds.evaluates hchain⟩)
  · refine Or.inl fun stack outcome => ?_
    rintro ⟨hne, n, rfl⟩
    exact hends ⟨n, stack, hne⟩

/-- A division by zero in a sum: the backtrace shows both. -/
example :
    let division : Expr := .operator .div (.integer 1) (.integer 0)
    let sum : Expr := .operator .add division (.integer 1)
    eval ⟨none, .byNeed⟩ 3 sum [] CallStack.empty {} =
      .failed ⟨.divisionByZero, some (CallStack.empty.pushAll [division, sum]).capture⟩ {} := rfl

end Evaluations

end Treewalk
