import Treewalk.Proofs.Paraphrase

/-!
# Pipes and `let`s are applications

* A pipe is the application that it stands for (`Interpreter.evalStep_pipe`).
* Where a frame can be opened, a `let` is followed by the application that it stands for, and follows it
  (`apply_follows_letIn`, `letIn_follows_apply`): the function is called with as many arguments as it has parameters, on
  the stack on which the body of the `let` is evaluated. Elsewhere both halt (`Expr.Unfolds.evalStep_of_halts`), though
  the application does so at the function and the `let` at its first binding, or at its body if it has none.
* Hence a program and any version of it with pipes and `let`s written as applications end alike
  (`desugaring_unobservable`).
-/

namespace Treewalk

open Run Filter

open List (Forall₂)

/-! ## Steps -/

section Steps

/-- A pipe is the application to one argument. -/
theorem Interpreter.evalStep_pipe (I : Interpreter) (config : Config) (f e : Expr) (env : Env) (stack : CallStack) :
    I.evalStep config (.pipe f e) env stack = I.evalStep config (.apply f [e]) env stack := by
  simp only [Interpreter.evalStep, List.mapM_cons, List.mapM_nil, bind_assoc, LawfulMonad.pure_bind]

/-- An eager `let` evaluates its right-hand sides, and then its body. -/
theorem Interpreter.evalStep_letIn (I : Interpreter) (config : Config) (bs : List (String × Expr)) (body : Expr)
    (env : Env) (stack : CallStack) : I.evalStep config (.letIn (.eager bs) body) env stack =
      ((bs.map (·.2)).mapM fun e => I.eval e env stack) >>= fun vs =>
        I.eval body (env.bindAll ((bs.map (·.1)).zip vs)) stack := by
  simp only [Interpreter.evalStep, Interpreter.declare, Interpreter.bindEager_eq, bind_assoc, LawfulMonad.pure_bind]

end Steps

/-! ## Stacks without room -/

section Full

variable {α β : Type} {cause : Cause} {cut : Option Cause} {stack : CallStack} {config : Config}

/-- Ends at once, for a cause or for want of fuel. -/
def Run.halt : Option Cause → Run α
  | some cause => fail cause
  | none => outOfFuel

theorem Run.halt_bind (cut : Option Cause) (f : α → Run β) : (halt cut >>= f : Run β) = halt cut := by
  cases cut <;> rfl

/-- On a full stack every evaluation halts. -/
theorem eval_of_full (hfull : ∀ e, stack.pushWithin config.maxDepth e = .error cause) (n : Nat) (e : Expr)
    (env : Env) : (interpreter config (n + 1)).eval e env stack = halt (some cause) := by
  show eval config (n + 1) e env stack = fail cause
  rw [eval_succ, Run.inFrame, hfull]

/-- If evaluation halts, so do a pipe or a `let` and the application that it stands for. -/
theorem Expr.Unfolds.evalStep_of_halts {X : Expr → Expr → Prop} {I : Interpreter} {e e' : Expr}
    (h : Expr.Unfolds X e e') (hhalt : ∀ e env, I.eval e env stack = halt cut) (env : Env) :
    I.evalStep config e env stack = halt cut ∧ I.evalStep config e' env stack = halt cut := by
  have happly : ∀ f es, I.evalStep config (.apply f es) env stack = halt cut := by
    intro f es
    simp only [Interpreter.evalStep, hhalt, halt_bind]
  refine ⟨?_, by cases h <;> exact happly _ _⟩
  cases h with
  | pipe =>
    rw [Interpreter.evalStep_pipe]
    exact happly _ _
  | @letIn bs es' body body' =>
    rw [Interpreter.evalStep_letIn]
    -- without bindings, the body is the first to be evaluated
    cases bs with
    | nil => simp only [List.map_nil, List.mapM_nil, LawfulMonad.pure_bind, hhalt]
    | cons b bs => simp only [List.map_cons, List.mapM_cons, hhalt, halt_bind]

theorem Expr.Recast.evalStep_of_halts {I : Interpreter} {e e' : Expr} (h : e.Recast e')
    (hhalt : ∀ e env, I.eval e env stack = halt cut) (env : Env) :
    I.evalStep config e env stack = halt cut ∧ I.evalStep config e' env stack = halt cut := by
  rcases h with h | h
  · exact h.evalStep_of_halts hhalt env
  · exact (h.evalStep_of_halts hhalt env).symm

end Full

/-! ## Calls -/

section Calls

variable {config : Config} {n : Nat} {w : Pairing} {e e' : Expr} {r r' : Env} {s s' : CallStack}
  {bs : List (String × Expr)} {body body' : Expr}

/-- A function is made in a frame of its own, and takes the next identity. -/
theorem eval_lambda (hroom : ∀ e, s.pushWithin config.maxDepth e = .ok (s.push e)) (params : List String) (body : Expr)
    (σ : Store) : (interpreter config (n + 1)).eval (.lambda params body) r s σ =
      .done (.closure σ.nextId none params body r) { σ with nextId := σ.nextId + 1 } := by
  show eval config (n + 1) (.lambda params body) r s σ = _
  simp only [eval_succ, Run.inFrame, hroom]
  rfl

/-- A function with as many arguments as it has parameters. -/
theorem apply_closure {params : List String} {vs : List Value} (hlen : vs.length = params.length) (id : Nat)
    (body : Expr) : (interpreter config (n + 1)).apply (.closure id none params body r) vs s =
      (interpreter config n).eval body (r.bindAll (params.zip vs)) s := by
  show apply config (n + 1) (.closure id none params body r) vs s = _
  simp only [apply_succ, Interpreter.applyStep, hlen, lt_irrefl, if_false]
  rfl

/-- The arguments of a call are as many as their expressions. -/
theorem simulates_args {I : Interpreter} [I.Remembers] {J : Nat → Interpreter} {es es' : List Expr}
    (hI : (paraphrased config).Interprets I J) (hr : Env.Paraphrase w.rel r r') (hs : s.depth = s'.depth)
    (hes : Forall₂ Expr.Paraphrase es es') :
    (paraphrased config).Simulates w
      (fun w' vs vs' => Forall₂ (Value.Paraphrase w'.rel) vs vs' ∧ vs.length = es.length)
      (es.mapM fun e => I.eval e r s) fun k => es'.mapM fun e => (J k).eval e r' s' := by
  intro σ τ hstore
  refine (Simulation.evalAll hI hs hr hes σ τ hstore).imp fun w' vs vs' σ' τ' hdone _ _ hvs => ?_
  exact ⟨hvs, length_of_mapM hdone⟩

/-- On full stacks, related calls of different forms halt alike. -/
theorem simulates_recast_of_full {cause : Cause}
    (hfull : ∀ e, s.pushWithin config.maxDepth e = .error cause ∧ s'.pushWithin config.maxDepth e = .error cause)
    (h : e.Recast e') (r r' : Env) :
    (paraphrased config).Simulates w (paraphrased config).value ((interpreter config n).evalStep config e r s)
      fun k => (interpreter config k).evalStep config e' r' s' := by
  have hright : ∀ k, (interpreter config (k + 1)).evalStep config e' r' s' = halt (some cause) :=
    fun k => (h.evalStep_of_halts (eval_of_full (fun e => (hfull e).2) k) r').2
  refine Simulation.Simulates.of_succ ?_
  simp only [hright]
  cases n with
  | zero =>
    have hhalt : ∀ e env, (interpreter config 0).eval e env s = halt none := fun _ _ => rfl
    rw [(h.evalStep_of_halts hhalt r).1]
    exact fun _ _ _ => .excused .outOfFuel
  | succ n =>
    rw [(h.evalStep_of_halts (eval_of_full (fun e => (hfull e).1) n) r).1]
    exact Simulation.fail cause

/-- **An application follows the `let` that stands for it.** -/
theorem apply_follows_letIn {es' : List Expr}
    (hI : (paraphrased config).Interprets (interpreter config n) (interpreter config))
    (hroom : ∀ e, s'.pushWithin config.maxDepth e = .ok (s'.push e)) (hr : Env.Paraphrase w.rel r r')
    (hs : s.depth = s'.depth) (hes : Forall₂ Expr.Paraphrase (bs.map (·.2)) es') (hbody : body.Paraphrase body') :
    (paraphrased config).Simulates w (paraphrased config).value
      ((interpreter config n).evalStep config (.letIn (.eager bs) body) r s)
      fun k => (interpreter config k).evalStep config (.apply (.lambda (bs.map (·.1)) body') es') r' s' := by
  rw [Interpreter.evalStep_letIn]
  -- the application first makes the function, whose identity stands for none
  refine Simulation.bind_right (Q := fun _ f' => ∃ id, f' = .closure id none (bs.map (·.1)) body' r') ?_ ?_
  · refine Simulation.Simulates.of_succ fun σ τ h => ?_
    simp only [eval_lambda hroom]
    exact .done le_rfl ⟨τ.nextId, rfl⟩ h.skip_right (Eventually.of_forall fun _ => rfl)
  · rintro w₁ hw₁ _ ⟨id, rfl⟩
    have hr₁ := hr.mono hw₁
    refine Simulation.bind inferInstance (simulates_args hI hr₁ hs hes) fun w₂ hw₂ vs vs' hvs => ?_
    have hlen : vs'.length = (bs.map (·.1)).length := by
      rw [← hvs.1.length_eq, hvs.2, List.length_map, List.length_map]
    refine Simulation.Simulates.of_succ ?_
    simp only [apply_closure hlen]
    exact hI.eval hbody (Simulation.env_bindAll (S := paraphrased config) (hr₁.mono hw₂) hvs.1 _) hs

/-- **A `let` follows the application that it stands for.** -/
theorem letIn_follows_apply {es : List Expr}
    (hI : (paraphrased config).Interprets (interpreter config (n + 1)) (interpreter config))
    (hroom : ∀ e, s.pushWithin config.maxDepth e = .ok (s.push e)) (hr : Env.Paraphrase w.rel r r')
    (hs : s.depth = s'.depth) (hes : Forall₂ Expr.Paraphrase es (bs.map (·.2))) (hbody : body.Paraphrase body') :
    (paraphrased config).Simulates w (paraphrased config).value
      ((interpreter config (n + 1)).evalStep config (.apply (.lambda (bs.map (·.1)) body) es) r s)
      fun k => (interpreter config k).evalStep config (.letIn (.eager bs) body') r' s' := by
  simp only [Interpreter.evalStep_letIn]
  refine Simulation.bind_left (Q := fun _ f => ∃ id, f = .closure id none (bs.map (·.1)) body r) inferInstance ?_ ?_
  · intro σ τ h
    rw [eval_lambda hroom]
    exact .done le_rfl ⟨σ.nextId, rfl⟩ h.skip_left (Eventually.of_forall fun _ => rfl)
  · rintro w₁ hw₁ _ ⟨id, rfl⟩
    have hr₁ := hr.mono hw₁
    refine Simulation.bind inferInstance (simulates_args hI hr₁ hs hes) fun w₂ hw₂ vs vs' hvs => ?_
    have hlen : vs.length = (bs.map (·.1)).length := by
      rw [hvs.2, hes.length_eq, List.length_map, List.length_map]
    rw [apply_closure hlen]
    refine Simulation.Simulates.of_agree ((agree_more_fuel config n.le_succ).1 _ _ _) ?_
    exact hI.eval hbody (Simulation.env_bindAll (S := paraphrased config) (hr₁.mono hw₂) hvs.1 _) hs

/-- **Related calls of different forms are evaluated alike**, if thunks are bound alike. -/
theorem simulates_recast (hI : (paraphrased config).Interprets (interpreter config n) (interpreter config))
    (hdeclare : (paraphrased config).Declares (interpreter config n) (interpreter config)) (h : e.Recast e')
    (hr : Env.Paraphrase w.rel r r') (hs : s.depth = s'.depth) :
    (paraphrased config).Simulates w (paraphrased config).value ((interpreter config n).evalStep config e r s)
      fun k => (interpreter config k).evalStep config e' r' s' := by
  rcases CallStack.pushWithin_alike config.maxDepth hs with ⟨cause, hfull⟩ | hroom
  · exact simulates_recast_of_full hfull h r r'
  · have happly : ∀ {f f' x x' : Expr}, f.Paraphrase f' → x.Paraphrase x' →
        (paraphrased config).Simulates w (paraphrased config).value
          ((interpreter config n).evalStep config (.apply f [x]) r s)
          fun k => (interpreter config k).evalStep config (.apply f' [x']) r' s' :=
      fun hf hx => Simulation.evalStep_of_layer hI hs hr hdeclare (.apply hf (.cons hx .nil)) nofun
    rcases h with h | h
    · cases h with
      | pipe hf hx =>
        rw [Interpreter.evalStep_pipe]
        exact happly hf hx
      | letIn hes hbody => exact apply_follows_letIn hI (fun e => (hroom e).2) hr hs hes hbody
    · cases h with
      | pipe hf hx =>
        simp only [Interpreter.evalStep_pipe]
        exact happly hf.symm hx.symm
      | letIn hes hbody =>
        cases n with
        | zero => exact fun _ _ _ => .excused .outOfFuel
        | succ n =>
          have hes' := hes.flip.imp fun _ _ he => Expr.Paraphrase.symm he
          exact letIn_follows_apply hI (fun e => (hroom e).1) hr hs hes' hbody.symm

end Calls

/-! ## Evaluators -/

section Evaluators

variable {config : Config}

/-- A new thunk has the same cell on either side. -/
theorem defers_paraphrased : (paraphrased config).Defers := by
  intro w r r' extended extended' e e' name he hr hext σ τ h
  refine .done le_rfl ?_ h.newCell (Eventually.of_forall fun _ => rfl)
  rw [h.size_eq]
  exact .cons (.thunk name _ he hr) hext

/-- **Paraphrases are evaluated alike**, whatever the fuel of the left evaluator. -/
theorem interprets_paraphrased (n : Nat) :
    (paraphrased config).Interprets (interpreter config n) (interpreter config) := by
  refine Simulation.interprets (S := paraphrased config) (fun n hI => ?_) n
  have hdeclare : (paraphrased config).Declares (interpreter config n) (interpreter config) :=
    fun w d d' r r' s s' hd hr hs =>
      Simulation.declare defers_paraphrased (fun _ _ name he => he.builder name) hI hd.layer hr hs
  refine ⟨fun {w r r' s s'} name hr hs => ?_, hdeclare, fun h hr hs => simulates_recast hI hdeclare h hr hs⟩
  unfold Interpreter.lookup
  have hentry := hr.lookup name
  generalize r.lookup? name = found at hentry
  generalize r'.lookup? name = found' at hentry
  cases hentry with
  | none => exact Simulation.fail _
  | some hentry =>
    cases hentry with
    | value _ hv => exact Simulation.pure hv
    | thunk _ cell he hr =>
      refine Simulation.force hI he hr hs (fun _ h => h.memo cell) fun _ _ _ _ _ _ _ h hv _ _ => h.fill cell hv

end Evaluators

/-! ## Programs -/

section Main

/-- Outcomes that look the same: values of one type and display, which are equal if they contain no function, or
failures of one cause. -/
inductive Outcome.LooksLike : Outcome Value → Outcome Value → Prop
  | done {v v' : Value} (store store' : Store) : v.typeName = v'.typeName → v.display = v'.display →
      (v.isData = true → (v == v') = true) → LooksLike (.done v store) (.done v' store')
  | failed {failure failure' : Failure} (store store' : Store) : failure.cause = failure'.cause →
      LooksLike (.failed failure store) (.failed failure' store')

/-- If a program ends, a paraphrase of it ends in an outcome that looks the same. -/
theorem Evaluates.paraphrase {config : Config} {e e' : Expr} {outcome : Outcome Value} (he : e.Paraphrase e')
    (h : Evaluates config e Env.withBuiltins CallStack.empty {} outcome) :
    ∃ outcome', Evaluates config e' Env.withBuiltins CallStack.empty {} outcome' ∧ outcome.LooksLike outcome' := by
  obtain ⟨hends, n, hn⟩ := h
  have henv : (paraphrased config).env .empty Env.withBuiltins Env.withBuiltins := Simulation.env_withBuiltins .nil
  have hfollows := (interprets_paraphrased n).eval (w := .empty) he henv (rfl : CallStack.empty.depth = _) {} {}
    Store.Paraphrase.start
  rw [show (interpreter config n).eval e Env.withBuiltins CallStack.empty {} = outcome from hn] at hfollows
  cases hfollows with
  | excused hexcused =>
    cases hexcused with
    | outOfFuel => exact absurd rfl hends
    | tested hfaithful => exact absurd trivial hfaithful
    | pardoned hpardon => exact hpardon.elim
  | @done w v v' σ τ _ _ hv _ hdone =>
    have hvalue : ((paraphrased config).resemblance w).value v v' := hv
    refine ⟨.done v' τ, Evaluates.of_eventually nofun hdone, .done σ τ ?_ ?_ fun hdata => ?_⟩
    · exact Resemblance.typeName_eq hvalue
    · exact Resemblance.display_eq hvalue
    · rw [Resemblance.eq_of_isData hvalue hdata]
      exact Value.beq_refl v
  | @failed _ f f' σ τ _ _ hcause _ hfailed =>
    exact ⟨.failed f' τ, Evaluates.of_eventually nofun hfailed, .failed σ τ hcause⟩

/-- **Pipes are applications and `let`s are calls, in every context.** A program and a version of it with some of them
written as applications both end in outcomes that look the same, or neither ends. -/
theorem desugaring_unobservable (config : Config) {e e' : Expr} (h : e.Desugars e') :
    ((∃ outcome, Evaluates config e Env.withBuiltins CallStack.empty {} outcome) ↔
      ∃ outcome, Evaluates config e' Env.withBuiltins CallStack.empty {} outcome) ∧
    ∀ outcome outcome', Evaluates config e Env.withBuiltins CallStack.empty {} outcome →
      Evaluates config e' Env.withBuiltins CallStack.empty {} outcome' → outcome.LooksLike outcome' := by
  refine ⟨⟨fun ⟨outcome, hends⟩ => ?_, fun ⟨outcome, hends⟩ => ?_⟩, fun outcome outcome' hends hends' => ?_⟩
  · obtain ⟨outcome', hends', _⟩ := hends.paraphrase (Or.inl h)
    exact ⟨outcome', hends'⟩
  · obtain ⟨outcome', hends', _⟩ := hends.paraphrase (Or.inr h)
    exact ⟨outcome', hends'⟩
  · obtain ⟨other, hother, hlooks⟩ := hends.paraphrase (Or.inl h)
    rw [hends'.unique hother]
    exact hlooks

/-- A lazy binding of a `let` without bindings, and a `let` that binds one name twice around a pipe. The program opens
seven frames, and so does its desugared version. -/
theorem desugaring_unobservable_nested :
    let applied : Expr := .apply (.lambda ["y"] (.list [.symbol "x", .symbol "y", .symbol "t"])) [.symbol "x"]
    ∃ v store, Evaluates ⟨some 7, .byNeed⟩
        (.letIn (.lazy [("t", .apply (.lambda [] (.integer 1)) [])])
          (.apply (.lambda ["x", "x"] applied) [.integer 1, .integer 2]))
        Env.withBuiltins CallStack.empty {} (.done v store) ∧
      (Value.list [.int 2, .int 2, .int 1] == v) = true := by
  intro applied
  let piped : Expr := .pipe (.lambda ["y"] (.list [.symbol "x", .symbol "y", .symbol "t"])) (.symbol "x")
  let e : Expr := .letIn (.lazy [("t", .letIn (.eager []) (.integer 1))])
    (.letIn (.eager [("x", .integer 1), ("x", .integer 2)]) piped)
  have hlazy : Decl.Desugars (.lazy [("t", .letIn (.eager []) (.integer 1))])
      (.lazy [("t", .apply (.lambda [] (.integer 1)) [])]) :=
    .keep (.lazy rfl (.cons (.unfold (.letIn .nil (.refl _))) .nil))
  have hlet : Expr.Desugars (.letIn (.eager [("x", .integer 1), ("x", .integer 2)]) piped)
      (.apply (.lambda ["x", "x"] applied) [.integer 1, .integer 2]) :=
    .unfold (.letIn (Expr.Desugars.reflAll _) (.unfold (.pipe (.refl _) (.refl _))))
  obtain ⟨hiff, hlooks⟩ := desugaring_unobservable ⟨some 7, .byNeed⟩ (e := e) (.keep (.letIn hlazy hlet))
  have heval : Evaluates ⟨some 7, .byNeed⟩ e Env.withBuiltins CallStack.empty {}
      (.done (.list [.int 2, .int 2, .int 1]) { cells := #[some (.int 1)], nextId := 1 }) := ⟨nofun, 9, rfl⟩
  obtain ⟨outcome, hends⟩ := hiff.1 ⟨_, heval⟩
  cases hlooks _ _ heval hends with
  | @done _ v _ store _ _ hdata => exact ⟨v, store, hends, hdata rfl⟩

end Main

end Treewalk
