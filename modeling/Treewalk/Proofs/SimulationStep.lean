import Treewalk.Proofs.Simulation

/-!
# Simulations, step by step

* **The step lemmas** (`Simulation.evalStep`, `Simulation.applyStep`): steps simulate each other if their parts do
  (`Simulation.Interprets`), their names are looked up alike and their declarations extend environments alike
  (`Simulation.Scopes`).
* **The fundamental lemma** (`Simulation.interprets`): hence so do the evaluators, by induction on the fuel of the left
  one.
* Evaluators that simulate each other force thunks alike, if memo cells are filled alike and stay so
  (`Simulation.force`).
* An evaluator may force thunks in a way of its own (`Interpreter.nextWith`). Evaluators that simulate each other do so
  with one more unit of fuel (`Simulation.Interprets.nextWith`).
-/

namespace Treewalk

open Run Filter

/-- A builtin runs only on as many arguments as its arity. -/
theorem Interpreter.callBuiltin_of_length_ne (I : Interpreter) {builtin : Builtin} {args : List Value}
    (stack : CallStack) (h : args.length ≠ builtin.arity) :
    I.callBuiltin builtin args stack = Run.fail (.arityMismatch builtin.name builtin.arity args.length) := by
  unfold Interpreter.callBuiltin
  split
  case h_13 => rfl
  all_goals exact absurd rfl h

/-- Eager bindings, with their names apart from their right-hand sides. -/
theorem Interpreter.bindEager_eq (I : Interpreter) (bindings : List (String × Expr)) (env : Env) (stack : CallStack) :
    I.bindEager bindings env stack = do
      let vs ← (bindings.map (·.2)).mapM fun e => I.eval e env stack
      return env.bindAll ((bindings.map (·.1)).zip vs) := by
  rw [List.mapM_map]
  rfl

namespace Simulation

variable {W : Type} [Preorder W]

/-! ## Functions -/

section Functions

/-- A family of evaluators follows an evaluator on related expressions and functions. -/
structure Interprets (S : Simulation W) (I : Interpreter) (J : Nat → Interpreter) : Prop where
  eval : ∀ {w : W} {e e' : Expr} {r r' : Env} {s s' : CallStack}, S.expr e e' → S.env w r r' → S.stack s s' →
    S.Simulates w S.value (I.eval e r s) fun k => (J k).eval e' r' s'
  apply : ∀ {w : W} {f f' : Value} {vs vs' : List Value} {s s' : CallStack}, S.value w f f' →
    List.Forall₂ (S.value w) vs vs' → S.stack s s' →
    S.Simulates w S.value (I.apply f vs s) fun k => (J k).apply f' vs' s'

variable {S : Simulation W} {I : Interpreter} {J : Nat → Interpreter} {w : W} {s s' : CallStack}

theorem env_bindAll {r r' : Env} {vs vs' : List Value} (hr : S.env w r r') (hvs : List.Forall₂ (S.value w) vs vs')
    (names : List String) : S.env w (r.bindAll (names.zip vs)) (r'.bindAll (names.zip vs')) := by
  induction names generalizing r r' vs vs' with
  | nil => exact hr
  | cons name names ih =>
    cases hvs with
    | nil => exact hr
    | cons hv hvs => exact ih (S.env_bind name hr hv) hvs

/-- The builtins are related to themselves. -/
theorem env_withBuiltins (h : S.env w [] []) : S.env w Env.withBuiltins Env.withBuiltins := by
  have hbind : ∀ (bs : List Builtin) (r : Env), S.env w r r →
      S.env w (r.bindAll (bs.map fun b => (b.name, .primitive b [])))
        (r.bindAll (bs.map fun b => (b.name, .primitive b []))) := by
    intro bs
    induction bs with
    | nil => exact fun r hr => hr
    | cons b bs ih =>
      exact fun r hr => ih _ (S.env_bind b.name hr ((S.value_iff w _ _).2 (.primitive b .nil)))
  exact hbind _ _ h

/-- Functions of one identity, body and environment. -/
theorem value_closure {i i' : Nat} {body body' : Expr} {r r' : Env} (self : Option String) (params : List String)
    (hi : S.ident w i i') (hbody : S.expr body body') (hr : S.env w r r') :
    S.value w (.closure i self params body r) (.closure i' self params body' r') :=
  (S.value_iff w _ _).2 (.closure self params ⟨hi, hbody, hr⟩)

variable (hI : S.Interprets I J) (hs : S.stack s s')
include hI hs

theorem test {f f' v v' : Value} (hf : S.value w f f') (hv : S.value w v v') :
    S.Simulates w (fun _ => Eq) (I.test f v s) fun k => (J k).test f' v' s' := by
  refine bind (fun v => by cases v <;> infer_instance) (hI.apply hf (.cons hv .nil) hs) fun w' _ v v' hv => ?_
  cases (S.value_iff w' v v').1 hv with
  | bool b => exact pure rfl
  | closure self => cases self <;> exact fail _
  | _ => exact fail _

variable [I.Remembers]

theorem combine (op : Combinator) {f f' coll coll' : Value} (hf : S.value w f f') (hcoll : S.value w coll coll') :
    S.Simulates w S.value (I.combine op f coll s) fun k => (J k).combine op f' coll' s' := by
  unfold Interpreter.combine
  rw [← Resemblance.isCallable_eq (S := S.resemblance w) hf, ← Resemblance.typeName_eq (S := S.resemblance w) hf]
  split
  · cases op with
    | map =>
      exact mapOver inferInstance hcoll fun w' hw v v' hv => hI.apply (S.value_mono hw hf) (.cons hv .nil) hs
    | filter =>
      exact filterOver inferInstance hcoll fun w' hw v v' hv => test hI hs (S.value_mono hw hf) hv
    | fold =>
      refine foldOver inferInstance hcoll fun w' hw v v' acc acc' hv hacc => ?_
      exact hI.apply (S.value_mono hw hf) (.cons hacc (.cons hv .nil)) hs
  · exact fail _

theorem callBuiltin (builtin : Builtin) {vs vs' : List Value} (hvs : List.Forall₂ (S.value w) vs vs') :
    S.Simulates w S.value (I.callBuiltin builtin vs s) fun k => (J k).callBuiltin builtin vs' s' := by
  by_cases hlen : vs.length = builtin.arity
  · cases builtin with
    | head | tail | not =>
      obtain ⟨a, rfl⟩ := List.length_eq_one_iff.1 hlen
      rcases hvs with _ | ⟨ha, ⟨⟩⟩
      exact unary _ ha
    | length =>
      obtain ⟨a, rfl⟩ := List.length_eq_one_iff.1 hlen
      rcases hvs with _ | ⟨ha, ⟨⟩⟩
      exact ofExcept (Resemblance.length (S := S.resemblance w) ha)
    | cons | delete | hasKey | getKey =>
      obtain ⟨a, b, rfl⟩ := List.length_eq_two.1 hlen
      rcases hvs with _ | ⟨ha, _ | ⟨hb, ⟨⟩⟩⟩
      exact binary _ ha hb
    | insert =>
      obtain ⟨key, a, b, rfl⟩ := List.length_eq_three.1 hlen
      rcases hvs with _ | ⟨hkey, _ | ⟨ha, _ | ⟨hb, ⟨⟩⟩⟩⟩
      exact insert hkey ha hb
    | map | fold | filter =>
      obtain ⟨f, coll, rfl⟩ := List.length_eq_two.1 hlen
      rcases hvs with _ | ⟨hf, _ | ⟨hcoll, ⟨⟩⟩⟩
      simp only [Interpreter.callBuiltin]
      exact combine hI hs _ hf hcoll
  · have hlen' : vs'.length ≠ builtin.arity := hvs.length_eq ▸ hlen
    simp only [Interpreter.callBuiltin_of_length_ne _ _ hlen, Interpreter.callBuiltin_of_length_ne _ _ hlen',
      hvs.length_eq]
    exact fail _

/-- **Application, step by step.** -/
theorem applyStep {f f' : Value} {vs vs' : List Value} (hf : S.value w f f')
    (hvs : List.Forall₂ (S.value w) vs vs') :
    S.Simulates w S.value (I.applyStep f vs s) fun k => (J k).applyStep f' vs' s' := by
  have hlen := hvs.length_eq
  cases (S.value_iff w f f').1 hf with
  | @closure i i' body body' r r' self params hclosure =>
    obtain ⟨hi, hbody, hr⟩ := hclosure
    -- the function itself is bound first, and then its parameters
    have henv : S.env w (Interpreter.bodyEnv (.closure i self params body r) self r (params.zip vs))
        (Interpreter.bodyEnv (.closure i' self params body' r') self r' (params.zip vs')) := by
      cases self with
      | none => exact env_bindAll hr hvs params
      | some name => exact env_bindAll (S.env_bind name hr hf) hvs params
    simp only [Interpreter.applyStep, ← hlen]
    split
    · exact fail _
    · split
      · refine bind inferInstance freshId fun w' hw id id' hid => ?_
        exact pure (value_closure none _ hid hbody (S.env_mono hw henv))
      · exact hI.eval hbody henv hs
  | @primitive collected collected' builtin hcollected =>
    have hargs := List.rel_append hcollected hvs
    have hlen' := hargs.length_eq
    simp only [Interpreter.applyStep, ← hlen']
    split
    · exact fail _
    · split
      · exact pure ((S.value_iff w _ _).2 (.primitive builtin hargs))
      · exact callBuiltin hI hs builtin hargs
  | _ => exact fail _

end Functions

/-! ## Expressions -/

section Expressions

/-- Related declarations extend related environments alike. -/
def Declares (S : Simulation W) (I : Interpreter) (J : Nat → Interpreter) : Prop :=
  ∀ ⦃w : W⦄ ⦃d d' : Decl⦄ ⦃r r' : Env⦄ ⦃s s' : CallStack⦄, S.decl d d' → S.env w r r' → S.stack s s' →
    S.Simulates w S.env (I.declare d r s) fun k => (J k).declare d' r' s'

/-- Names are looked up alike in related environments, related declarations extend them alike, and related calls of
different forms are evaluated alike. -/
structure Scopes (S : Simulation W) (I : Interpreter) (J : Nat → Interpreter) : Prop where
  lookup : ∀ {w : W} {r r' : Env} {s s' : CallStack} (name : String), S.env w r r' → S.stack s s' →
    S.Simulates w S.value (I.lookup S.left.strategy name r s) fun k => (J k).lookup S.right.strategy name r' s'
  declare : S.Declares I J
  recast : ∀ {w : W} {e e' : Expr} {r r' : Env} {s s' : CallStack}, S.recast e e' → S.env w r r' → S.stack s s' →
    S.Simulates w S.value (I.evalStep S.left e r s) fun k => (J k).evalStep S.right e' r' s'

variable {S : Simulation W} {I : Interpreter} {J : Nat → Interpreter} {w : W} {s s' : CallStack} {r r' : Env}

/-- Expressions are related whatever the world. -/
theorem grows_expr : Grows fun (_ : W) => S.expr :=
  fun _ _ _ _ _ h => h

variable [I.Remembers] (hI : S.Interprets I J) (hs : S.stack s s') (hr : S.env w r r')
include hI hs hr

theorem evalAll {es es' : List Expr} (hes : List.Forall₂ S.expr es es') :
    S.Simulates w (fun w' => List.Forall₂ (S.value w')) (es.mapM fun e => I.eval e r s)
      fun k => es'.mapM fun e => (J k).eval e r' s' := by
  refine mapM grows_expr @S.value_mono inferInstance hes fun w' hw e e' he => ?_
  exact hI.eval he (S.env_mono hw hr) hs

theorem evalPairs {ps ps' : List (Expr × Expr)}
    (hps : List.Forall₂ (fun p p' => S.expr p.1 p'.1 ∧ S.expr p.2 p'.2) ps ps') :
    S.Simulates w S.value (I.evalStep S.left (.dict ps) r s) fun k => (J k).evalStep S.right (.dict ps') r' s' := by
  refine bind (R := S.pairs) inferInstance ?_ fun w' _ ds ds' hds => pure ((S.value_iff w' _ _).2 (.dict hds))
  refine foldlM (Q := fun _ (p p' : Expr × Expr) => S.expr p.1 p'.1 ∧ S.expr p.2 p'.2) (fun _ _ _ _ _ h => h)
    inferInstance hps .nil ?_
  intro w₁ hw₁ p p' ds ds' hp hds
  have hr₁ := S.env_mono hw₁ hr
  refine bind inferInstance (hI.eval hp.1 hr₁ hs) fun w₂ hw₂ key key' hkey => ?_
  refine bind inferInstance (hI.eval hp.2 (S.env_mono hw₂ hr₁) hs) fun w₃ hw₃ v v' hv => ?_
  exact addPair (grows_pairs (hw₂.trans hw₃) hds) (S.value_mono hw₃ hkey) hv

section Declares

variable (hdeclare : S.Declares I J)
include hdeclare

omit [I.Remembers] hI hs hr hdeclare in
theorem sequenceItem_of_isCall {e : Expr} (h : e.isCall) (I : Interpreter) (limit : Option Nat) (r : Env)
    (s : CallStack) : I.sequenceItem limit e r s = do return (r, ← I.eval e r s) := by
  cases e with
  | letIn | apply | pipe => rfl
  | _ => cases h

omit [I.Remembers] in
/-- One item of a sequence. A declaration opens a frame of its own. -/
theorem sequenceItem {e e' : Expr} (he : S.expr e e') :
    S.Simulates w (fun w' p p' => S.env w' p.1 p'.1 ∧ S.value w' p.2 p'.2) (I.sequenceItem S.left.maxDepth e r s)
      fun k => (J k).sequenceItem S.right.maxDepth e' r' s' := by
  have hunit : ∀ w', S.value w' .unit .unit := fun w' => (S.value_iff w' _ _).2 .unit
  have heval := hI.eval he hr hs
  have hlast : S.Simulates w (fun w' p p' => S.env w' p.1 p'.1 ∧ S.value w' p.2 p'.2)
      (do return (r, ← I.eval e r s)) fun k => do return (r', ← (J k).eval e' r' s') :=
    bind inferInstance heval fun w' hw v v' hv => pure ⟨S.env_mono hw hr, hv⟩
  rcases S.expr_layer he with hlayer | hrecast
  · cases hlayer with
    | declare hd =>
      refine bind (R := S.env) inferInstance ?_ fun w' _ extended extended' h => pure ⟨h, hunit w'⟩
      exact inFrame he hs fun hs' => hdeclare hd hr hs'
    | _ => exact hlast
  · obtain ⟨hcall, hcall'⟩ := S.recast_calls hrecast
    simp only [sequenceItem_of_isCall hcall, sequenceItem_of_isCall hcall']
    exact hlast

theorem sequence {es es' : List Expr} (hes : List.Forall₂ S.expr es es') :
    S.Simulates w S.value (I.sequence S.left.maxDepth es r s) fun k => (J k).sequence S.right.maxDepth es' r' s' := by
  have hunit : S.value w .unit .unit := (S.value_iff w _ _).2 .unit
  cases hes with
  | nil => exact fail _
  | cons he hes =>
    refine bind (R := fun w' p p' => S.env w' p.1 p'.1 ∧ S.value w' p.2 p'.2) inferInstance ?_
      fun w' _ p p' hp => pure hp.2
    refine foldlM grows_expr inferInstance (.cons he hes) ⟨hr, hunit⟩ fun w' hw e e' p p' he hp => ?_
    exact sequenceItem hI hs hp.1 hdeclare he

/-- **Evaluation, step by step**, of expressions of one form. What is asked of names is asked only where the expression
is one. -/
theorem evalStep_of_layer {e e' : Expr} (he : Expr.Layer S.expr S.decl e e')
    (hlookup : ∀ name, e = .symbol name →
      S.Simulates w S.value (I.lookup S.left.strategy name r s) fun k => (J k).lookup S.right.strategy name r' s') :
    S.Simulates w S.value (I.evalStep S.left e r s) fun k => (J k).evalStep S.right e' r' s' := by
  cases he with
  | unit => exact pure ((S.value_iff w _ _).2 .unit)
  | integer n => exact pure ((S.value_iff w _ _).2 (.int n))
  | boolean b => exact pure ((S.value_iff w _ _).2 (.bool b))
  | string t => exact pure ((S.value_iff w _ _).2 (.str t))
  | list hes =>
    refine bind inferInstance (evalAll hI hs hr hes) fun w' _ vs vs' hvs => ?_
    exact pure ((S.value_iff w' _ _).2 (.list hvs))
  | dict hks hvs => exact evalPairs hI hs hr (forall₂_pairs_iff.2 ⟨hks, hvs⟩)
  | symbol name => exact hlookup name rfl
  | unary op hv => exact bind inferInstance (hI.eval hv hr hs) fun w' _ v v' hv => unary op hv
  | binary op hl hr' =>
    refine bind inferInstance (hI.eval hl hr hs) fun w₁ hw₁ a a' ha => ?_
    refine bind inferInstance (hI.eval hr' (S.env_mono hw₁ hr) hs) fun w₂ hw₂ b b' hb => ?_
    exact binary op (S.value_mono hw₂ ha) hb
  | insert hk hv hd =>
    refine bind inferInstance (hI.eval hk hr hs) fun w₁ hw₁ key key' hkey => ?_
    have hr₁ := S.env_mono hw₁ hr
    refine bind inferInstance (hI.eval hv hr₁ hs) fun w₂ hw₂ v v' hv => ?_
    refine bind inferInstance (hI.eval hd (S.env_mono hw₂ hr₁) hs) fun w₃ hw₃ dict dict' hdict => ?_
    exact insert (S.value_mono (hw₂.trans hw₃) hkey) (S.value_mono hw₃ hv) hdict
  | combine op hc hf =>
    refine bind inferInstance (hI.eval hc hr hs) fun w₁ hw₁ coll coll' hcoll => ?_
    refine bind inferInstance (hI.eval hf (S.env_mono hw₁ hr) hs) fun w₂ hw₂ func func' hfunc => ?_
    exact combine hI hs op hfunc (S.value_mono hw₂ hcoll)
  | branch hc hy hn =>
    refine bind ?_ (hI.eval hc hr hs) fun w' hw v v' hv => ?_
    · intro v
      cases v with
      | bool b => cases b <;> infer_instance
      | _ => infer_instance
    · have hr' := S.env_mono hw hr
      cases (S.value_iff w' v v').1 hv with
      | bool b =>
        cases b with
        | true => exact hI.eval hy hr' hs
        | false => exact hI.eval hn hr' hs
      | closure self => cases self <;> exact fail _
      | _ => exact fail _
  | letIn hd hbody =>
    refine bind inferInstance (hdeclare hd hr hs) fun w' _ extended extended' hext => ?_
    exact hI.eval hbody hext hs
  | declare hd =>
    refine bind inferInstance (hdeclare hd hr hs) fun w' _ _ _ _ => ?_
    exact pure ((S.value_iff w' _ _).2 .unit)
  | lambda params hbody =>
    refine bind inferInstance freshId fun w' hw id id' hid => ?_
    exact pure (value_closure none params hid hbody (S.env_mono hw hr))
  | apply hf hes =>
    refine bind inferInstance (hI.eval hf hr hs) fun w₁ hw₁ f f' hf => ?_
    refine bind inferInstance (evalAll hI hs (S.env_mono hw₁ hr) hes) fun w₂ hw₂ vs vs' hvs => ?_
    exact hI.apply (S.value_mono hw₂ hf) hvs hs
  | sequence hes => exact sequence hI hs hr hdeclare hes
  | pipe hf hv =>
    refine bind inferInstance (hI.eval hf hr hs) fun w₁ hw₁ f f' hf => ?_
    refine bind inferInstance (hI.eval hv (S.env_mono hw₁ hr) hs) fun w₂ hw₂ v v' hv => ?_
    exact hI.apply (S.value_mono hw₂ hf) (.cons hv .nil) hs

end Declares

theorem evalStep (hscopes : S.Scopes I J) {e e' : Expr} (he : S.expr e e') :
    S.Simulates w S.value (I.evalStep S.left e r s) fun k => (J k).evalStep S.right e' r' s' := by
  rcases S.expr_layer he with hlayer | hrecast
  · exact evalStep_of_layer hI hs hr hscopes.declare hlayer fun name _ => hscopes.lookup name hr hs
  · exact hscopes.recast hrecast hr hs

end Expressions

/-! ## Declarations -/

section Declarations

variable {S : Simulation W} {I : Interpreter} {J : Nat → Interpreter} {w : W} {s s' : CallStack} {r r' : Env}

/-- Binding a name to a new thunk, alike on either side. -/
def Defers (S : Simulation W) : Prop :=
  ∀ ⦃w : W⦄ ⦃r r' extended extended' : Env⦄ ⦃e e' : Expr⦄ (name : String), S.expr e e' → S.env w r r' →
    S.env w extended extended' →
    S.Simulates w S.env (do return extended.extend name (.thunk (← newCell) e r))
      fun _ => do return extended'.extend name (.thunk (← newCell) e' r')

/-- The builders of lazy recursive functions are related if the functions are. -/
def Builds (S : Simulation W) : Prop :=
  ∀ ⦃e e' : Expr⦄ (name : String), S.expr e e' →
    S.expr (.letIn (.recursive name e) (.symbol name)) (.letIn (.recursive name e') (.symbol name))

theorem bindRecursive {e e' : Expr} (name : String) (he : S.expr e e') (hr : S.env w r r') :
    S.Simulates w S.env (Run.bindRecursive name e r) fun _ => Run.bindRecursive name e' r' := by
  rcases S.expr_layer he with hlayer | hrecast
  · cases hlayer with
    | lambda params hbody =>
      refine bind inferInstance freshId fun w' hw id id' hid => pure ?_
      exact S.env_bind name (S.env_mono hw hr) (value_closure (some name) params hid hbody (S.env_mono hw hr))
    | _ => exact fail _
  · obtain ⟨hcall, hcall'⟩ := S.recast_calls hrecast
    cases e <;> cases hcall <;> cases e' <;> cases hcall' <;> exact fail _

theorem bindLazyRecursive (hdefers : S.Defers) (hbuilds : S.Builds) {e e' : Expr} (name : String) (he : S.expr e e')
    (hr : S.env w r r') :
    S.Simulates w S.env (Run.bindLazyRecursive name e r) fun _ => Run.bindLazyRecursive name e' r' := by
  have hdefer := hdefers name (hbuilds name he) hr hr
  rcases S.expr_layer he with hlayer | hrecast
  · cases hlayer with
    | lambda params hbody => exact hdefer
    | _ => exact fail _
  · obtain ⟨hcall, hcall'⟩ := S.recast_calls hrecast
    cases e <;> cases hcall <;> cases e' <;> cases hcall' <;> exact fail _

/-- **Declarations of one form extend related environments alike**, if new thunks do. -/
theorem declare [I.Remembers] (hdefers : S.Defers) (hbuilds : S.Builds) (hI : S.Interprets I J) {d d' : Decl}
    (hd : Decl.Layer S.expr d d') (hr : S.env w r r') (hs : S.stack s s') :
    S.Simulates w S.env (I.declare d r s) fun k => (J k).declare d' r' s' := by
  cases hd with
  | @eager bs bs' hnames hes =>
    simp only [Interpreter.declare, Interpreter.bindEager_eq, ← hnames]
    refine bind inferInstance (evalAll hI hs hr hes) fun w' hw vs vs' hvs => ?_
    exact pure (env_bindAll (S.env_mono hw hr) hvs _)
  | lazy hnames hes =>
    have hbs := forall₂_pairs_iff.2 ⟨List.forall₂_eq_eq_eq ▸ hnames, hes⟩
    refine foldlM (Q := fun _ (b b' : String × Expr) => b.1 = b'.1 ∧ S.expr b.2 b'.2) (fun _ _ _ _ _ h => h)
      inferInstance hbs hr fun w' hw b b' extended extended' hb hext => ?_
    obtain ⟨name, e⟩ := b
    obtain ⟨name', e'⟩ := b'
    obtain ⟨rfl, he⟩ : name = name' ∧ S.expr e e' := hb
    exact hdefers name he (S.env_mono hw hr) hext
  | recursive name he => exact bindRecursive name he hr
  | lazyRecursive name he => exact bindLazyRecursive hdefers hbuilds name he hr

end Declarations

/-! ## Evaluators -/

section Evaluators

variable {S : Simulation W}

/-- More fuel on the right side changes nothing. -/
theorem Simulates.of_succ {α α' : Type} {w : W} {R : W → α → α' → Prop} {m : Run α} {ms : Nat → Run α'}
    (h : S.Simulates w R m fun k => ms (k + 1)) : S.Simulates w R m ms := by
  intro σ τ hstore
  have h := h σ τ hstore
  generalize m σ = outcome at h
  cases h with
  | excused h => exact .excused h
  | done hw ha hstore' h => exact .done hw ha hstore' (eventually_of_succ h)
  | failed hw hf hstore' h => exact .failed hw hf hstore' (eventually_of_succ h)

/-- Less fuel on the left side changes nothing. -/
theorem Simulates.of_agree {α α' : Type} {w : W} {R : W → α → α' → Prop} {m m' : Run α} {ms : Nat → Run α'}
    (hagree : Run.Agree (· = none) m m') (h : S.Simulates w R m' ms) : S.Simulates w R m ms := by
  intro σ τ hstore
  rcases hagree σ with hcut | heq
  · generalize m σ = outcome at hcut
    cases hcut with
    | outOfFuel => exact .excused .outOfFuel
    | failed hfailed => cases hfailed
  · rw [heq]
    exact h σ τ hstore

/-- **The fundamental lemma**: the right evaluator follows the left one, with whatever fuel, if it does so at names and
declarations. -/
theorem interprets
    (hscopes : ∀ n, S.Interprets (interpreter S.left n) (interpreter S.right) →
      S.Scopes (interpreter S.left n) (interpreter S.right)) :
    ∀ n, S.Interprets (interpreter S.left n) (interpreter S.right) := by
  intro n
  induction n with
  | zero => exact ⟨fun _ _ _ _ _ _ => .excused .outOfFuel, fun _ _ _ _ _ _ => .excused .outOfFuel⟩
  | succ n hI =>
    constructor
    · intro w e e' r r' s s' he hr hs
      refine Simulates.of_succ ?_
      exact inFrame he hs fun hs' => evalStep hI hs' hr (hscopes n hI) he
    · intro w f f' vs vs' s s' hf hvs hs
      exact Simulates.of_succ (applyStep hI hs hf hvs)

end Evaluators

end Simulation

/-! ## Thunks, and evaluators that force them in a way of their own -/

section Forcing

/-- Forcing an empty cell evaluates its thunk. -/
theorem force_of_none (I : Interpreter) {store : Store} {cell : Nat} (e : Expr) (r : Env) (s : CallStack)
    (h : store.memo? cell = none) :
    I.force .byNeed cell e r s store = (I.eval e r s >>= memoize cell) store := by
  simp only [Interpreter.force, bind_apply, Run.memo?, h]

/-- Forcing a filled cell reads it. -/
theorem force_of_some (I : Interpreter) {store : Store} {cell : Nat} {v : Value} (e : Expr) (r : Env) (s : CallStack)
    (h : store.memo? cell = some v) : I.force .byNeed cell e r s store = .done v store := by
  simp only [Interpreter.force, bind_apply, Run.memo?, h]
  rfl

/-- **Thunks are forced alike** if their cells are filled alike, and may be filled alike. -/
theorem Simulation.force {W : Type} [Preorder W] {S : Simulation W} {I : Interpreter} [I.Remembers]
    {J : Nat → Interpreter} {w : W} {cell cell' : Nat} {e e' : Expr} {r r' : Env} {s s' : CallStack}
    {strategy : Strategy} (hI : S.Interprets I J) (he : S.expr e e') (hr : S.env w r r') (hs : S.stack s s')
    (hmemo : ∀ {w' : W} {σ τ : Store}, w ≤ w' → S.store w' σ τ →
      Option.Rel (S.value w') (σ.memo? cell) (τ.memo? cell'))
    (hfill : strategy = .byNeed → ∀ {w' : W} {σ τ : Store} {v v' : Value}, w ≤ w' → S.store w' σ τ →
      S.value w' v v' → σ.memo? cell = none → τ.memo? cell' = none →
      S.store w' { σ with cells := σ.cells.set! cell (some v) } { τ with cells := τ.cells.set! cell' (some v') }) :
    S.Simulates w S.value (I.force strategy cell e r s) fun k => (J k).force strategy cell' e' r' s' := by
  have heval := hI.eval he hr hs
  intro σ τ hstore
  cases strategy with
  | byName => exact heval σ τ hstore
  | byNeed =>
    have hrel := hmemo le_rfl hstore
    cases hheld : σ.memo? cell <;> cases hheld' : τ.memo? cell' <;> rw [hheld, hheld'] at hrel <;> cases hrel
    case some.some hv =>
      simp only [force_of_some _ _ _ _ hheld, force_of_some _ _ _ _ hheld']
      exact .done le_rfl hv hstore (Eventually.of_forall fun _ => rfl)
    case none.none =>
      simp only [force_of_none _ _ _ _ hheld, force_of_none _ _ _ _ hheld']
      refine Simulation.bind inferInstance heval (fun w' hw v v' hv σ' τ' hstore' => ?_) σ τ hstore
      -- the evaluation may have filled the cells
      have hrel' := hmemo hw hstore'
      cases hlate : σ'.memo? cell <;> cases hlate' : τ'.memo? cell' <;> rw [hlate, hlate'] at hrel' <;>
        simp only [memoize, hlate, hlate'] <;> cases hrel'
      case none.none =>
        exact .done le_rfl hv (hfill rfl hw hstore' hv hlate hlate') (Eventually.of_forall fun _ => rfl)
      case some.some hv' => exact .done le_rfl hv' hstore' (Eventually.of_forall fun _ => rfl)

/-- The value of a name, with the value of a thunk left to `force`. -/
def Run.lookupWith (force : Nat → Expr → Env → CallStack → Run Value) (name : String) (env : Env)
    (stack : CallStack) : Run Value :=
  match env.lookup? name with
  | some (.value v) => return v
  | some (.thunk cell e captured) => force cell e captured stack
  | none => fail (.unboundVariable name)

/-- An evaluator with one more unit of fuel, which forces thunks by `force` and leaves all else to `I`. -/
def Interpreter.nextWith (config : Config) (force : Nat → Expr → Env → CallStack → Run Value) (I : Interpreter) :
    Interpreter where
  eval e env stack := inFrame config.maxDepth e stack fun inner =>
    match e with
    | .symbol name => lookupWith force name env inner
    | e => I.evalStep config e env inner
  apply := I.applyStep

/-- The evaluator itself forces thunks by itself. -/
theorem interpreter_succ_eq_nextWith (config : Config) (n : Nat) :
    interpreter config (n + 1) =
      (interpreter config n).nextWith config ((interpreter config n).force config.strategy) := by
  have heval : eval config (n + 1) =
      ((interpreter config n).nextWith config ((interpreter config n).force config.strategy)).eval := by
    funext e env stack
    cases e <;> rfl
  show (⟨eval config (n + 1), _⟩ : Interpreter) = _
  rw [heval]
  rfl

instance (config : Config) (force : Nat → Expr → Env → CallStack → Run Value) (I : Interpreter) [I.Remembers]
    [∀ cell e env stack, (force cell e env stack).Remembers] : (I.nextWith config force).Remembers where
  eval e env stack := by
    have hlookup : ∀ name stack, (lookupWith force name env stack).Remembers := by
      intro name stack
      unfold lookupWith
      split <;> infer_instance
    unfold Interpreter.nextWith
    cases e <;> infer_instance
  apply callee args stack := inferInstanceAs (I.applyStep callee args stack).Remembers

/-- **One more unit of fuel keeps a simulation** of expressions of one form, if names are looked up alike. -/
theorem Simulation.Interprets.nextWith {W : Type} [Preorder W] {S : Simulation W} {I : Interpreter} [I.Remembers]
    {J : Nat → Interpreter} {force : Nat → Expr → Env → CallStack → Run Value}
    {force' : Nat → Nat → Expr → Env → CallStack → Run Value} (hlayer : ∀ {e e'}, S.expr e e' → ¬S.recast e e')
    (hI : S.Interprets I J) (hdeclare : S.Declares I J)
    (hlookup : ∀ ⦃w : W⦄ ⦃r r' : Env⦄ ⦃s s' : CallStack⦄ (name : String), S.env w r r' → S.stack s s' →
      S.Simulates w S.value (lookupWith force name r s) fun k => lookupWith (force' k) name r' s') :
    S.Interprets (I.nextWith S.left force) fun k => (J k).nextWith S.right (force' k) where
  eval := by
    intro w e e' r r' s s' he hr hs
    refine Simulation.inFrame he hs fun hs' => ?_
    have he := (S.expr_layer he).resolve_right (hlayer he)
    have hstep := fun hsymbol => Simulation.evalStep_of_layer hI hs' hr hdeclare he hsymbol
    cases he with
    | symbol name => exact hlookup name hr hs'
    | _ => exact hstep nofun
  apply hf hvs hs := Simulation.applyStep hI hs hf hvs

end Forcing

end Treewalk
