import Treewalk.Proofs.Backtraces
import Treewalk.Proofs.FreeVariables

/-!
# Sequences

A declaration in a sequence is in a frame of its own, and the later items of the sequence are not in it; a binding form
is in one frame with its right-hand sides and its body. Without a limit the difference shows in backtraces only, so it
is left out here (`Outcome.bare`).

* How an expression ends follows from how its parts end one after another (`Then`), on whatever stack they are
  evaluated: `endsIn_letIn`, `endsIn_sequence_declare`, `endsIn_sequence_item`.
* Hence **a sequence with declarations is nested binding forms** (`sequence_is_nested_bindings`): the rest of a sequence
  is the body of the declaration before it. A sequence ends as its first item that fails, or else as its last one, in
  the environment to which the declarations before that item extend the environment of the sequence.
-/

namespace Treewalk

open Run

/-! ## Outcomes without backtraces -/

section Bare

variable {α β : Type}

/-- An outcome without the backtrace of its failure. -/
def Outcome.bare : Outcome α → Outcome α
  | .done a store => .done a store
  | .failed failure store => .failed ⟨failure.cause, none⟩ store
  | .outOfFuel => .outOfFuel

theorem Outcome.bare_eq_done {outcome : Outcome α} {a : α} {σ : Store} :
    outcome.bare = .done a σ ↔ outcome = .done a σ := by
  cases outcome <;> simp [Outcome.bare]

theorem Outcome.bare_eq_outOfFuel {outcome : Outcome α} : outcome.bare = .outOfFuel ↔ outcome = .outOfFuel := by
  cases outcome <;> simp [Outcome.bare]

/-- If a run ends, another one ends alike but for the backtrace. -/
def Run.LeadsTo (m m' : Run α) : Prop :=
  ∀ σ, m σ = .outOfFuel ∨ (m σ).bare = (m' σ).bare

theorem Run.LeadsTo.refl (m : Run α) : m.LeadsTo m :=
  fun _ => Or.inr rfl

theorem Run.LeadsTo.bind {m m' : Run α} {f f' : α → Run β} (hm : m.LeadsTo m') (hf : ∀ a, (f a).LeadsTo (f' a)) :
    (m >>= f).LeadsTo (m' >>= f') := by
  intro σ
  rw [bind_apply, bind_apply]
  rcases hm σ with h | h
  · rw [h]
    exact Or.inl rfl
  · generalize m σ = outcome at h
    generalize m' σ = outcome' at h
    cases outcome with
    | outOfFuel => exact Or.inl rfl
    | done a σ' =>
      rw [Outcome.bare_eq_done.1 h.symm]
      exact hf a σ'
    | failed failure σ' =>
      refine Or.inr ?_
      cases outcome' with
      | failed failure' σ'' =>
        obtain ⟨hcause, rfl⟩ := Outcome.failed.inj h
        exact congrArg (Outcome.failed · σ') hcause
      | _ => cases h

theorem compositional_leadsTo (strategy : Strategy) :
    Compositional strategy fun m : Bool → Run _ => (m false).LeadsTo (m true) where
  pure _ := .refl _
  bind := .bind
  fail _ _ := .refl _
  freshId := .refl _
  newCell := .refl _
  noteIdentityTest _ := .refl _
  memo? _ _ := .refl _
  memoize _ _ _ := .refl _

/-- A frame that is not refused does nothing but complete a backtrace. -/
theorem bare_inFrame_of_ok {limit : Option Nat} {e : Expr} {s inner : CallStack}
    (h : s.pushWithin limit e = .ok inner) (body : CallStack → Run α) (σ : Store) :
    (inFrame limit e s body σ).bare = (body inner σ).bare := by
  simp only [Run.inFrame, h]
  cases body inner σ with
  | failed failure σ' => simp only [Outcome.bare, CallStack.attach_cause]
  | _ => rfl

theorem bare_inFrame (e : Expr) (s : CallStack) (body : CallStack → Run α) (σ : Store) :
    (inFrame none e s body σ).bare = (body (s.push e) σ).bare :=
  bare_inFrame_of_ok (s.pushWithin_none e) body σ

theorem Run.LeadsTo.inFrame {e : Expr} {s s' : CallStack} {body body' : CallStack → Run α}
    (h : (body (s.push e)).LeadsTo (body' (s'.push e))) :
    (inFrame none e s body).LeadsTo (inFrame none e s' body') := by
  intro σ
  rw [bare_inFrame, bare_inFrame, ← Outcome.bare_eq_outOfFuel, bare_inFrame, Outcome.bare_eq_outOfFuel]
  exact h σ

end Bare

/-! ## Conclusions -/

section Conclusions

variable {α β : Type} {ms : Nat → CallStack → Run α} {fs : α → Nat → CallStack → Run β} {s : CallStack} {σ : Store}

/-- Runs for each amount of fuel and each stack. More fuel and another stack change nothing, once a run ends. -/
def Stable (ms : Nat → CallStack → Run α) : Prop :=
  ∀ ⦃n k : Nat⦄, n ≤ k → ∀ s t, (ms n s).LeadsTo (ms k t)

/-- With enough fuel, the runs end in an outcome, but for the backtrace. -/
def Concludes (ms : Nat → CallStack → Run α) (s : CallStack) (σ : Store) (o : Outcome α) : Prop :=
  o ≠ .outOfFuel ∧ ∃ n, (ms n s σ).bare = o

/-- One thing after another: the second from what the first gives, unless the first fails. -/
def Then (first : Outcome α → Prop) (next : α → Store → Outcome β → Prop) (o : Outcome β) : Prop :=
  (∃ a σ, first (.done a σ) ∧ next a σ o) ∨ ∃ cause σ, first (.failed ⟨cause, none⟩ σ) ∧ o = .failed ⟨cause, none⟩ σ

theorem Concludes.of_leadsTo {ms' : Nat → CallStack → Run α} {t : CallStack} {o : Outcome α}
    (h : Concludes ms s σ o) (hleads : ∀ n, ∃ k, (ms n s).LeadsTo (ms' k t)) : Concludes ms' t σ o := by
  obtain ⟨ho, n, rfl⟩ := h
  obtain ⟨k, hk⟩ := hleads n
  rcases hk σ with hfuel | hbare
  · exact absurd (Outcome.bare_eq_outOfFuel.2 hfuel) ho
  · exact ⟨ho, k, hbare.symm⟩

theorem concludes_stack (hms : Stable ms) (t : CallStack) {o : Outcome α} :
    Concludes ms s σ o ↔ Concludes ms t σ o :=
  ⟨fun h => h.of_leadsTo fun n => ⟨n, hms le_rfl s t⟩, fun h => h.of_leadsTo fun n => ⟨n, hms le_rfl t s⟩⟩

theorem stable_pure (a : α) : Stable fun _ _ => (pure a : Run α) :=
  fun _ _ _ _ _ => .refl _

theorem Stable.bind (hms : Stable ms) (hfs : ∀ a, Stable (fs a)) : Stable fun n s => ms n s >>= fun a => fs a n s :=
  fun _ _ hnk s t => (hms hnk s t).bind fun a => hfs a hnk s t

theorem concludes_pure {a : α} {o : Outcome α} : Concludes (fun _ _ => pure a) s σ o ↔ o = .done a σ := by
  constructor
  · rintro ⟨_, _, rfl⟩
    rfl
  · rintro rfl
    exact ⟨nofun, 0, rfl⟩

theorem concludes_frame {e : Expr} {o : Outcome α} :
    Concludes (fun n s => inFrame none e s (ms n)) s σ o ↔ Concludes ms (s.push e) σ o := by
  simp only [Concludes, bare_inFrame]

/-- Runs that end with some fuel end alike with more. -/
theorem Stable.bare_eq (hms : Stable ms) {n k : Nat} (h : n ≤ k) {o : Outcome α} (ho : o ≠ .outOfFuel)
    (hn : (ms n s σ).bare = o) : (ms k s σ).bare = o := by
  rcases hms h s s σ with hfuel | hbare
  · rw [hfuel] at hn
    exact absurd hn.symm ho
  · exact hbare.symm.trans hn

/-- **Runs in a row conclude one after the other.** -/
theorem concludes_bind (hms : Stable ms) (hfs : ∀ a, Stable (fs a)) {o : Outcome β} :
    Concludes (fun n s => ms n s >>= fun a => fs a n s) s σ o ↔
      Then (Concludes ms s σ) (fun a σ' => Concludes (fs a) s σ') o := by
  constructor
  · rintro ⟨ho, n, rfl⟩
    simp only [bind_apply] at ho ⊢
    cases hm : ms n s σ with
    | outOfFuel =>
      rw [hm] at ho
      exact absurd rfl ho
    | done a σ' =>
      rw [hm] at ho
      exact Or.inl ⟨a, σ', ⟨Outcome.done_ne_outOfFuel _ _, n, Outcome.bare_eq_done.2 hm⟩, ho, n, rfl⟩
    | failed failure σ' =>
      refine Or.inr ⟨failure.cause, σ', ⟨Outcome.failed_ne_outOfFuel _ _, n, ?_⟩, rfl⟩
      rw [hm]
      rfl
  · rintro (⟨a, σ', ⟨hne, n, hn⟩, ho, k, hk⟩ | ⟨cause, σ', ⟨hne, n, hn⟩, rfl⟩)
    · refine ⟨ho, max n k, ?_⟩
      have hm := Outcome.bare_eq_done.1 (hms.bare_eq (le_max_left n k) hne hn)
      simp only [bind_apply, hm]
      exact (hfs a).bare_eq (le_max_right n k) ho hk
    · refine ⟨Outcome.failed_ne_outOfFuel _ _, n, ?_⟩
      simp only [bind_apply]
      cases hm : ms n s σ with
      | failed failure σ'' =>
        rw [hm] at hn
        obtain ⟨hcause, rfl⟩ := Outcome.failed.inj hn
        exact congrArg (Outcome.failed · σ'') hcause
      | _ =>
        rw [hm] at hn
        cases hn

end Conclusions

/-! ## Evaluations -/

section Evaluations

variable {strategy : Strategy} {decl : Decl} {e x : Expr} {rest : List Expr} {env : Env} {s : CallStack} {σ : Store}
  {o : Outcome Value}

/-- Runs that more fuel does not change and whose stack shows in the backtrace only. -/
theorem stable_of_uniform {α : Type} {ms : Nat → CallStack → Run α} {handled : Nat → Surroundings → Run α}
    (hagree : ∀ {n k}, n ≤ k → ∀ s, Agree (· = none) (ms n s) (ms k s)) (huniform : ∀ n, Uniform (handled n))
    (hattach : ∀ n s, handled n ⟨CallStack.attach, s⟩ = ms n s) : Stable ms := by
  intro n k hnk s t σ
  rcases hagree hnk s σ with hcut | heq
  · refine Or.inl ?_
    generalize ms n s σ = outcome at hcut
    cases hcut with
    | outOfFuel => rfl
    | failed h => cases h
  · refine Or.inr ?_
    rw [heq, ← hattach, ← hattach]
    rcases huniform k σ with h | ⟨a, σ', h⟩ | ⟨cause, chain, σ', h⟩
    · rw [h, h]
    · rw [h, h]
    · rw [h, h]
      simp only [Outcome.bare, Surroundings.unwind, CallStack.unwind_attach_cause]

theorem stable_eval (strategy : Strategy) (e : Expr) (env : Env) : Stable (eval ⟨none, strategy⟩ · e env) :=
  stable_of_uniform (fun hnk s => (agree_more_fuel _ hnk).1 e env s) (fun n => (uniform_eval_apply strategy n).1 e env)
    fun n s => congrArg (·.eval e env s) (interpreterHandling_attach _ n)

theorem stable_apply (strategy : Strategy) (callee : Value) (args : List Value) :
    Stable (apply ⟨none, strategy⟩ · callee args) :=
  stable_of_uniform (fun hnk s => (agree_more_fuel _ hnk).2 callee args s)
    (fun n => (uniform_eval_apply strategy n).2 callee args)
    fun n s => congrArg (·.apply callee args s) (interpreterHandling_attach _ n)

/-- The evaluator with the given fuel and no limit. -/
abbrev unlimited (strategy : Strategy) (n : Nat) : Interpreter :=
  interpreter ⟨none, strategy⟩ n

theorem stable_declare (strategy : Strategy) (decl : Decl) (env : Env) :
    Stable fun n s => (unlimited strategy n).declare decl env s := by
  intro n k hnk s t
  have hP := compositional_leadsTo strategy
  exact hP.declare (fun i => unlimited strategy (cond i k n)) (fun i => cond i t s)
    (fun e env => stable_eval strategy e env hnk s t) decl env

theorem stable_sequence (strategy : Strategy) (items : List Expr) (env : Env) :
    Stable fun n s => (unlimited strategy n).sequence none items env s := by
  intro n k hnk s t
  have hP := compositional_leadsTo strategy
  refine hP.sequence (fun i => unlimited strategy (cond i k n)) (fun i => cond i t s)
    (fun e env => stable_eval strategy e env hnk s t) (fun _ => ⟨none, strategy⟩) (fun decl env => ?_) items env
  exact LeadsTo.inFrame (stable_declare strategy decl env hnk _ _)

/-- Without a limit, an expression evaluates to an outcome, but for the backtrace. -/
def EndsIn (strategy : Strategy) (e : Expr) (env : Env) (s : CallStack) (σ : Store) (o : Outcome Value) : Prop :=
  ∃ outcome, Evaluates ⟨none, strategy⟩ e env s σ outcome ∧ outcome.bare = o

/-- Without a limit, a declaration gives an environment or fails, but for the backtrace. -/
def Declares (strategy : Strategy) (decl : Decl) (env : Env) (s : CallStack) (σ : Store) (o : Outcome Env) : Prop :=
  Concludes (fun n s => (unlimited strategy n).declare decl env s) s σ o

theorem endsIn_iff_concludes : EndsIn strategy e env s σ o ↔ Concludes (eval ⟨none, strategy⟩ · e env) s σ o := by
  constructor
  · rintro ⟨_, ⟨hne, n, rfl⟩, rfl⟩
    exact ⟨fun h => hne (Outcome.bare_eq_outOfFuel.1 h), n, rfl⟩
  · rintro ⟨hne, n, rfl⟩
    exact ⟨_, ⟨fun h => hne (Outcome.bare_eq_outOfFuel.2 h), n, rfl⟩, rfl⟩

/-- An expression ends as its step does, on whatever stack. -/
theorem endsIn_iff_step {step : Nat → CallStack → Run Value} (hstable : Stable step)
    (hstep : ∀ n s, (unlimited strategy n).evalStep ⟨none, strategy⟩ e env s = step n s) :
    EndsIn strategy e env s σ o ↔ Concludes step s σ o := by
  have hframe : (fun n s => inFrame none e s (step n)) = fun n => eval ⟨none, strategy⟩ (n + 1) e env := by
    funext n s
    rw [eval_succ, funext (hstep n)]
  rw [endsIn_iff_concludes, concludes_stack hstable (s.push e), ← concludes_frame, hframe]
  exact ⟨fun h => h.of_leadsTo fun n => ⟨n, stable_eval strategy e env n.le_succ s s⟩,
    fun h => h.of_leadsTo fun n => ⟨n + 1, LeadsTo.refl _⟩⟩

theorem endsIn_letIn {body : Expr} : EndsIn strategy (.letIn decl body) env s σ o ↔
    Then (Declares strategy decl env s σ) (fun extended σ' => EndsIn strategy body extended s σ') o := by
  have hdeclare := stable_declare strategy decl env
  have hbody := stable_eval strategy body
  rw [endsIn_iff_step (hdeclare.bind hbody) fun _ _ => rfl, concludes_bind hdeclare hbody]
  simp only [endsIn_iff_concludes, Declares, Then]

/-- A declaration has the value `()`. -/
theorem endsIn_declare : EndsIn strategy (.declare decl) env s σ o ↔
    Then (Declares strategy decl env s σ) (fun _ σ' o => o = .done .unit σ') o := by
  have hdeclare := stable_declare strategy decl env
  have hunit : ∀ _ : Env, Stable fun _ _ => (pure .unit : Run Value) := fun _ => stable_pure _
  rw [endsIn_iff_step (hdeclare.bind hunit) fun _ _ => rfl, concludes_bind hdeclare hunit]
  simp only [concludes_pure, Declares, Then]

/-! ### Items of sequences -/

/-- The rest of a sequence is a sequence in the environment that the first item leaves. -/
theorem sequence_cons (I : Interpreter) (hrest : rest ≠ []) (limit : Option Nat) (env : Env) (s : CallStack) :
    I.sequence limit (x :: rest) env s =
      I.sequenceItem limit x env s >>= fun state => I.sequence limit rest state.1 s := by
  cases rest with
  | nil => exact absurd rfl hrest
  | cons y rest =>
    simp only [Interpreter.sequence, List.isEmpty_cons, Bool.false_eq_true, if_false, List.foldlM_cons, bind_assoc]

theorem sequence_singleton (I : Interpreter) (limit : Option Nat) (env : Env) (s : CallStack) :
    I.sequence limit [x] env s = I.sequenceItem limit x env s >>= fun state => pure state.2 := by
  simp only [Interpreter.sequence, List.isEmpty_cons, Bool.false_eq_true, if_false, List.foldlM_cons, List.foldlM_nil,
    bind_pure]

theorem sequenceItem_of_not_declaration (I : Interpreter) (hx : x.isDeclaration = false) (limit : Option Nat)
    (env : Env) (s : CallStack) : I.sequenceItem limit x env s = I.eval x env s >>= fun v => pure (env, v) := by
  cases x with
  | declare decl => cases hx
  | _ => rfl

/-- In a sequence, a declaration is in a frame of its own. -/
theorem stable_framed (strategy : Strategy) (decl : Decl) (env : Env) :
    Stable fun n s => inFrame none (.declare decl) s ((unlimited strategy n).declare decl env) :=
  fun _ _ hnk _ _ => LeadsTo.inFrame (stable_declare strategy decl env hnk _ _)

theorem concludes_framed {o : Outcome Env} :
    Concludes (fun n s => inFrame none (.declare decl) s ((unlimited strategy n).declare decl env)) s σ o ↔
      Declares strategy decl env s σ o :=
  concludes_frame.trans (concludes_stack (stable_declare strategy decl env) s)

theorem endsIn_sequence {items : List Expr} : EndsIn strategy (.sequence items) env s σ o ↔
    Concludes (fun n s => (unlimited strategy n).sequence none items env s) s σ o :=
  endsIn_iff_step (stable_sequence strategy items env) fun _ _ => rfl

/-- After a declaration, a sequence goes on as the body of a binding form does. -/
theorem endsIn_sequence_declare (hrest : rest ≠ []) : EndsIn strategy (.sequence (.declare decl :: rest)) env s σ o ↔
    Then (Declares strategy decl env s σ) (fun extended σ' => EndsIn strategy (.sequence rest) extended s σ') o := by
  have hframed := stable_framed strategy decl env
  have hsequence := stable_sequence strategy rest
  have hstep : ∀ n s, (unlimited strategy n).sequence none (.declare decl :: rest) env s =
      inFrame none (.declare decl) s ((unlimited strategy n).declare decl env) >>= fun extended =>
        (unlimited strategy n).sequence none rest extended s := by
    intro n s
    rw [sequence_cons _ hrest]
    simp only [Interpreter.sequenceItem, bind_assoc, pure_bind]
  simp only [endsIn_sequence, hstep, concludes_bind hframed hsequence, concludes_framed, Then]

/-- An item that is no declaration leaves the environment as it is. -/
theorem endsIn_sequence_item (hx : x.isDeclaration = false) (hrest : rest ≠ []) :
    EndsIn strategy (.sequence (x :: rest)) env s σ o ↔
      Then (EndsIn strategy x env s σ) (fun _ σ' => EndsIn strategy (.sequence rest) env s σ') o := by
  have heval := stable_eval strategy x env
  have hsequence := fun _ : Value => stable_sequence strategy rest env
  have hstep : ∀ n s, (unlimited strategy n).sequence none (x :: rest) env s =
      eval ⟨none, strategy⟩ n x env s >>= fun _ => (unlimited strategy n).sequence none rest env s := by
    intro n s
    rw [sequence_cons _ hrest, sequenceItem_of_not_declaration _ hx]
    simp only [bind_assoc, pure_bind]
    rfl
  simp only [endsIn_sequence, hstep, concludes_bind heval hsequence, ← endsIn_iff_concludes, Then]

/-- A sequence of one item ends as the item does. -/
theorem endsIn_sequence_singleton : EndsIn strategy (.sequence [x]) env s σ o ↔ EndsIn strategy x env s σ o := by
  cases hx : x.isDeclaration with
  | false =>
    have hstep : ∀ n s, (unlimited strategy n).sequence none [x] env s = eval ⟨none, strategy⟩ n x env s := by
      intro n s
      rw [sequence_singleton, sequenceItem_of_not_declaration _ hx]
      simp only [bind_assoc, pure_bind, bind_pure]
      rfl
    simp only [endsIn_sequence, hstep]
    rw [endsIn_iff_concludes]
  | true =>
    cases x with
    | declare decl =>
      have hframed := stable_framed strategy decl env
      have hunit : ∀ _ : Env, Stable fun _ _ => (pure .unit : Run Value) := fun _ => stable_pure _
      have hstep : ∀ n s, (unlimited strategy n).sequence none [.declare decl] env s =
          inFrame none (.declare decl) s ((unlimited strategy n).declare decl env) >>= fun _ => pure .unit := by
        intro n s
        rw [sequence_singleton]
        simp only [Interpreter.sequenceItem, bind_assoc, pure_bind]
      rw [endsIn_declare]
      simp only [endsIn_sequence, hstep, concludes_bind hframed hunit, concludes_framed, concludes_pure, Then]
    | _ => cases hx

end Evaluations

/-! ## Environments of items -/

section Environments

variable {strategy : Strategy} {decl : Decl} {x : Expr} {items : List Expr} {env env' : Env} {s : CallStack}
  {σ σ' : Store}

theorem bindAll_eq (env : Env) (bindings : List (String × Value)) :
    env.bindAll bindings = (bindings.map fun p => (p.1, Binding.value p.2)).reverse ++ env := by
  induction bindings generalizing env with
  | nil => rfl
  | cons p bindings ih =>
    rw [List.map_cons, List.reverse_cons, List.append_assoc, List.singleton_append]
    exact ih _

/-- Names are bound to thunks from left to right. -/
theorem bindLazy_eq {bindings : List (String × Expr)} {extended captured : Env}
    (h : (bindings.foldlM (fun extended p => do return extended.extend p.1 (.thunk (← newCell) p.2 captured)) extended :
      Run Env) σ = .done env' σ') :
    ∃ added, env' = added ++ extended ∧ added.map (·.1) = (bindings.map (·.1)).reverse := by
  induction bindings generalizing extended σ with
  | nil =>
    cases h
    exact ⟨[], rfl, rfl⟩
  | cons p bindings ih =>
    obtain ⟨added, rfl, hnames⟩ := ih h
    refine ⟨added ++ [(p.1, .thunk σ.cells.size p.2 captured)], ?_, ?_⟩
    · rw [List.append_assoc, List.singleton_append, Env.extend]
    · simp only [List.map_append, hnames, List.map_cons, List.map_nil, List.reverse_cons]

/-- **A declaration extends the environment by its names**, of which the last is found first. -/
theorem Declares.extends (h : Declares strategy decl env s σ (.done env' σ')) :
    ∃ added, env' = added ++ env ∧ added.map (·.1) = decl.names.reverse := by
  obtain ⟨-, n, hn⟩ := h
  replace hn := Outcome.bare_eq_done.1 hn
  cases decl with
  | eager bindings =>
    simp only [Interpreter.declare, Interpreter.bindEager, bind_apply] at hn
    split at hn
    · next vs _ hvs =>
      cases hn
      refine ⟨_, bindAll_eq _ _, ?_⟩
      rw [List.map_reverse, List.map_map, Decl.names]
      exact congrArg List.reverse (List.map_fst_zip (by rw [List.length_map, length_of_mapM hvs]))
    · cases hn
    · cases hn
  | lazy bindings => exact bindLazy_eq hn
  | recursive name value =>
    cases value with
    | lambda params body =>
      cases hn
      exact ⟨[_], rfl, rfl⟩
    | _ => cases hn
  | lazyRecursive name value =>
    cases value with
    | lambda params body =>
      cases hn
      exact ⟨[_], rfl, rfl⟩
    | _ => cases hn

/-- An item of a sequence has a value, and the next item finds this environment and this store. -/
inductive ItemPasses (strategy : Strategy) (s : CallStack) : Expr → Env → Store → Env → Store → Prop
  | declare {decl : Decl} {env extended : Env} {σ σ' : Store} : Declares strategy decl env s σ (.done extended σ') →
      ItemPasses strategy s (.declare decl) env σ extended σ'
  | other {x : Expr} {env : Env} {v : Value} {σ σ' : Store} : x.isDeclaration = false →
      EndsIn strategy x env s σ (.done v σ') → ItemPasses strategy s x env σ env σ'

/-- Items of a sequence have values, one after another. -/
inductive Passes (strategy : Strategy) (s : CallStack) : List Expr → Env → Store → Env → Store → Prop
  | nil (env : Env) (σ : Store) : Passes strategy s [] env σ env σ
  | cons {x : Expr} {items : List Expr} {env env₁ env' : Env} {σ σ₁ σ' : Store} :
      ItemPasses strategy s x env σ env₁ σ₁ → Passes strategy s items env₁ σ₁ env' σ' →
      Passes strategy s (x :: items) env σ env' σ'

theorem ItemPasses.extends (h : ItemPasses strategy s x env σ env' σ') :
    ∃ added, env' = added ++ env ∧ added.map (·.1) = x.declared.reverse := by
  cases h with
  | declare hdeclares => exact hdeclares.extends
  | other hx _ =>
    refine ⟨[], rfl, ?_⟩
    cases x with
    | declare decl => cases hx
    | _ => rfl

/-- Items extend the environment by the names of the declarations among them, and by nothing else. -/
theorem Passes.extends (h : Passes strategy s items env σ env' σ') :
    ∃ added, env' = added ++ env ∧ added.map (·.1) = (items.flatMap Expr.declared).reverse := by
  induction h with
  | nil => exact ⟨[], rfl, rfl⟩
  | cons hx _ ih =>
    obtain ⟨first, rfl, hfirst⟩ := hx.extends
    obtain ⟨added, rfl, hadded⟩ := ih
    refine ⟨added ++ first, (List.append_assoc _ _ _).symm, ?_⟩
    rw [List.map_append, hadded, hfirst, List.flatMap_cons, List.reverse_append]

end Environments

/-! ## Items one after another -/

section Items

variable {strategy : Strategy} {x : Expr} {items rest : List Expr} {env env' : Env} {s : CallStack} {σ σ' : Store}
  {o : Outcome Value}

theorem EndsIn.unique {o' : Outcome Value} (h : EndsIn strategy x env s σ o) (h' : EndsIn strategy x env s σ o') :
    o = o' := by
  obtain ⟨_, heval, rfl⟩ := h
  obtain ⟨_, heval', rfl⟩ := h'
  rw [heval.unique heval']

theorem Declares.unique {decl : Decl} {o o' : Outcome Env} (h : Declares strategy decl env s σ o)
    (h' : Declares strategy decl env s σ o') : o = o' := by
  obtain ⟨ho, n, hn⟩ := h
  obtain ⟨ho', k, hk⟩ := h'
  have hstable := stable_declare strategy decl env
  rw [← hstable.bare_eq (le_max_left n k) ho hn, hstable.bare_eq (le_max_right n k) ho' hk]

theorem ItemPasses.endsIn (h : ItemPasses strategy s x env σ env' σ') :
    ∃ v, EndsIn strategy x env s σ (.done v σ') := by
  cases h with
  | declare hdeclares => exact ⟨.unit, endsIn_declare.2 (Or.inl ⟨env', σ', hdeclares, rfl⟩)⟩
  | @other _ _ v _ _ _ hends => exact ⟨v, hends⟩

theorem ItemPasses.unique {env₁ : Env} {σ₁ : Store} (h : ItemPasses strategy s x env σ env' σ')
    (h₁ : ItemPasses strategy s x env σ env₁ σ₁) : env' = env₁ ∧ σ' = σ₁ := by
  cases h with
  | declare hdeclares =>
    cases h₁ with
    | declare hdeclares₁ => exact Outcome.done.inj (hdeclares.unique hdeclares₁)
    | other hx => cases hx
  | other hx hends =>
    cases h₁ with
    | declare => cases hx
    | other _ hends₁ => exact ⟨rfl, (Outcome.done.inj (hends.unique hends₁)).2⟩

/-- **A sequence goes on after its first item**, in the environment that the item leaves, unless the item fails. -/
theorem endsIn_sequence_cons (hrest : rest ≠ []) : EndsIn strategy (.sequence (x :: rest)) env s σ o ↔
    (∃ env' σ', ItemPasses strategy s x env σ env' σ' ∧ EndsIn strategy (.sequence rest) env' s σ' o) ∨
      ∃ cause σ', EndsIn strategy x env s σ (.failed ⟨cause, none⟩ σ') ∧ o = .failed ⟨cause, none⟩ σ' := by
  cases hx : x.isDeclaration with
  | false =>
    rw [endsIn_sequence_item hx hrest]
    refine or_congr ⟨?_, ?_⟩ Iff.rfl
    · rintro ⟨v, σ', hends, ho⟩
      exact ⟨env, σ', .other hx hends, ho⟩
    · rintro ⟨env', σ', hpasses, ho⟩
      cases hpasses with
      | declare => cases hx
      | @other _ _ v _ _ _ hends => exact ⟨v, σ', hends, ho⟩
  | true =>
    cases x with
    | declare decl =>
      rw [endsIn_sequence_declare hrest]
      refine or_congr ⟨?_, ?_⟩ ⟨?_, ?_⟩
      · rintro ⟨extended, σ', hdeclares, ho⟩
        exact ⟨extended, σ', .declare hdeclares, ho⟩
      · rintro ⟨extended, σ', hpasses, ho⟩
        cases hpasses with
        | declare hdeclares => exact ⟨extended, σ', hdeclares, ho⟩
        | other hx' => cases hx'
      · rintro ⟨cause, σ', hdeclares, ho⟩
        exact ⟨cause, σ', endsIn_declare.2 (Or.inr ⟨cause, σ', hdeclares, rfl⟩), ho⟩
      · rintro ⟨cause, σ', hends, ho⟩
        rcases endsIn_declare.1 hends with ⟨_, _, _, heq⟩ | ⟨cause', σ'', hdeclares, heq⟩
        · cases heq
        · cases heq
          exact ⟨cause, σ', hdeclares, ho⟩
    | _ => cases hx

/-- After an item that has a value, a sequence ends as the rest of it. -/
theorem ItemPasses.endsIn_iff (h : ItemPasses strategy s x env σ env' σ') (hrest : rest ≠ []) :
    EndsIn strategy (.sequence (x :: rest)) env s σ o ↔ EndsIn strategy (.sequence rest) env' s σ' o := by
  rw [endsIn_sequence_cons hrest]
  constructor
  · rintro (⟨env₁, σ₁, h₁, ho⟩ | ⟨cause, σ₁, hfails, -⟩)
    · obtain ⟨rfl, rfl⟩ := h.unique h₁
      exact ho
    · obtain ⟨v, hends⟩ := h.endsIn
      cases hends.unique hfails
  · exact fun ho => Or.inl ⟨env', σ', h, ho⟩

/-- After items that have values, a sequence ends as the rest of it. -/
theorem Passes.endsIn_iff (h : Passes strategy s items env σ env' σ') (hrest : rest ≠ []) :
    EndsIn strategy (.sequence (items ++ rest)) env s σ o ↔ EndsIn strategy (.sequence rest) env' s σ' o := by
  induction h with
  | nil => exact Iff.rfl
  | cons hx _ ih => rw [List.cons_append, hx.endsIn_iff (List.append_ne_nil_of_right_ne_nil _ hrest), ih]

/-- A sequence fails if its first item does. -/
theorem EndsIn.sequence_of_failed {cause : Cause} (h : EndsIn strategy x env s σ (.failed ⟨cause, none⟩ σ'))
    (rest : List Expr) : EndsIn strategy (.sequence (x :: rest)) env s σ (.failed ⟨cause, none⟩ σ') := by
  by_cases hrest : rest = []
  · rw [hrest]
    exact endsIn_sequence_singleton.2 h
  · exact (endsIn_sequence_cons hrest).2 (Or.inr ⟨cause, σ', h, rfl⟩)

/-- **One item settles how a sequence ends**: the first one that fails, or else the last one. -/
theorem endsIn_sequence_iff (hitems : items ≠ []) : EndsIn strategy (.sequence items) env s σ o ↔
    ∃ before x after env' σ', items = before ++ x :: after ∧ Passes strategy s before env σ env' σ' ∧
      EndsIn strategy x env' s σ' o ∧ (after = [] ∨ ∃ cause σ'', o = .failed ⟨cause, none⟩ σ'') := by
  constructor
  · intro h
    induction items generalizing env σ with
    | nil => exact absurd rfl hitems
    | cons x rest ih =>
      by_cases hrest : rest = []
      · rw [hrest] at h ⊢
        exact ⟨[], x, [], env, σ, rfl, .nil env σ, endsIn_sequence_singleton.1 h, Or.inl rfl⟩
      · rcases (endsIn_sequence_cons hrest).1 h with ⟨env₁, σ₁, hx, hend⟩ | ⟨cause, σ₁, hx, rfl⟩
        · obtain ⟨before, y, after, env', σ', rfl, hbefore, hy, hlast⟩ := ih hrest hend
          exact ⟨x :: before, y, after, env', σ', rfl, .cons hx hbefore, hy, hlast⟩
        · exact ⟨[], x, rest, env, σ, rfl, .nil env σ, hx, Or.inr ⟨cause, σ₁, rfl⟩⟩
  · rintro ⟨before, x, after, env', σ', rfl, hbefore, hx, hlast⟩
    rw [hbefore.endsIn_iff (List.cons_ne_nil x after)]
    rcases hlast with rfl | ⟨cause, σ'', rfl⟩
    · exact endsIn_sequence_singleton.2 hx
    · exact hx.sequence_of_failed after

end Items

/-! ## Nested binding forms -/

section Main

/-- **A sequence with declarations is nested binding forms.** It ends as its first item that fails, or else as its last
one, in the environment that the items before declare. -/
theorem sequence_is_nested_bindings (strategy : Strategy) (env : Env) (s : CallStack) (σ : Store) :
    (∀ decl rest, rest ≠ [] → ∀ o, EndsIn strategy (.sequence (.declare decl :: rest)) env s σ o ↔
      EndsIn strategy (.letIn decl (.sequence rest)) env s σ o) ∧
    (∀ x rest, x.isDeclaration = false → rest ≠ [] →
      (∀ cause σ', EndsIn strategy x env s σ (.failed ⟨cause, none⟩ σ') →
        EndsIn strategy (.sequence (x :: rest)) env s σ (.failed ⟨cause, none⟩ σ')) ∧
      (∀ v σ', EndsIn strategy x env s σ (.done v σ') → ∀ o,
        EndsIn strategy (.sequence (x :: rest)) env s σ o ↔ EndsIn strategy (.sequence rest) env s σ' o) ∧
      ((∀ o, ¬EndsIn strategy x env s σ o) → ∀ o, ¬EndsIn strategy (.sequence (x :: rest)) env s σ o)) ∧
    (∀ items, items ≠ [] → ∀ o, EndsIn strategy (.sequence items) env s σ o ↔
      ∃ before x after env' σ', items = before ++ x :: after ∧ Passes strategy s before env σ env' σ' ∧
        EndsIn strategy x env' s σ' o ∧ (after = [] ∨ ∃ cause σ'', o = .failed ⟨cause, none⟩ σ'')) ∧
    ∀ before env' σ', Passes strategy s before env σ env' σ' →
      ∃ added, env' = added ++ env ∧ added.map (·.1) = (before.flatMap Expr.declared).reverse := by
  refine ⟨?_, ?_, fun items hitems o => endsIn_sequence_iff hitems, fun _ _ _ hpasses => hpasses.extends⟩
  · intro decl rest hrest o
    rw [endsIn_sequence_declare hrest, endsIn_letIn]
  · intro x rest hx hrest
    refine ⟨fun cause σ' h => h.sequence_of_failed rest, fun v σ' h o => ?_, fun hdiverges o h => ?_⟩
    · exact (ItemPasses.other hx h).endsIn_iff hrest
    · rcases (endsIn_sequence_cons hrest).1 h with ⟨_, _, hpasses, _⟩ | ⟨cause, σ', hfails, _⟩
      · obtain ⟨v, hends⟩ := hpasses.endsIn
        exact hdiverges _ hends
      · exact hdiverges _ hfails

/-- A nested sequence declares a name anew for itself, and the name is bound afterwards to what it was before. -/
theorem sequence_is_nested_bindings_shadowed :
    let define (n : Int64) : Expr := .declare (.eager [("x", .integer n)])
    let inner : Expr := .sequence [define 2, .symbol "x"]
    let rest : List Expr := [inner, .symbol "x"]
    EndsIn .byNeed (.letIn (.eager [("x", .integer 1)]) (.sequence rest)) [] CallStack.empty {} (.done (.int 1) {}) ∧
      EndsIn .byNeed (.sequence (define 1 :: rest)) [] CallStack.empty {} (.done (.int 1) {}) := by
  intro define inner rest
  have hlet : EndsIn .byNeed (.letIn (.eager [("x", .integer 1)]) (.sequence rest)) [] CallStack.empty {}
      (.done (.int 1) {}) := ⟨.done (.int 1) {}, ⟨nofun, 5, rfl⟩, rfl⟩
  obtain ⟨hnested, -⟩ := sequence_is_nested_bindings .byNeed [] CallStack.empty {}
  exact ⟨hlet, (hnested (.eager [("x", .integer 1)]) rest (List.cons_ne_nil _ _) _).2 hlet⟩

end Main

end Treewalk
