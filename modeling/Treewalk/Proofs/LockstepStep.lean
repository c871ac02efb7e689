import Treewalk.Proofs.Lockstep
import Treewalk.Proofs.SimulationStep

/-!
# Evaluators in lockstep, step by step

Two evaluators keep step on every expression whose free variables they find bound alike (`Lockstep.Interprets`).

* **Scopes**: binding arguments to parameters, or the names of a declaration, takes the names off the free ones
  (`Lockstep.env_bindAll`, `Lockstep.declare`).
* **The step lemmas** (`Lockstep.evalStep`, `Lockstep.applyStep`): an evaluation or an application keeps step if its
  parts do. Hence evaluators keep step with one more unit of fuel (`Lockstep.Interprets.next`).
-/

namespace Treewalk

open Run

/-- An evaluator with one more unit of fuel: its parts are evaluated by `I`. -/
def Interpreter.next (config : Config) (I : Interpreter) : Interpreter where
  eval e env stack := inFrame config.maxDepth e stack fun inner => I.evalStep config e env inner
  apply := I.applyStep

theorem interpreter_succ (config : Config) (n : Nat) :
    interpreter config (n + 1) = (interpreter config n).next config := rfl

namespace Lockstep

variable {W : Type} [Preorder W]

/-- Two evaluators keep step on the same expressions and on related functions. -/
structure Interprets (L : Lockstep W) (I J : Interpreter) : Prop where
  eval : ∀ {w : W} {e : Expr} {r r' : Env} {s : CallStack}, L.env w e.free r r' →
    L.Keeps w L.value (I.eval e r s) (J.eval e r' s)
  apply : ∀ {w : W} {f f' : Value} {vs vs' : List Value} {s : CallStack}, L.value w f f' →
    List.Forall₂ (L.value w) vs vs' → L.Keeps w L.value (I.apply f vs s) (J.apply f' vs' s)

/-! ## Scopes -/

section Scopes

variable {L : Lockstep W} {w : W} {r r' : Env} {names : List String}

theorem env_left {left right : List String} (h : L.env w (left ++ right) r r') : L.env w left r r' :=
  L.env_subset (List.subset_append_left _ _) h

theorem env_right {left right : List String} (h : L.env w (left ++ right) r r') : L.env w right r r' :=
  L.env_subset (List.subset_append_right _ _) h

/-- The parameters that have got an argument are bound, and the others stay to be bound. -/
theorem env_bindAll {vs vs' : List Value} {params : List String} (hr : L.env w (stillFree params names) r r')
    (hvs : List.Forall₂ (L.value w) vs vs') (hlen : vs.length ≤ params.length) :
    L.env w (stillFree (params.drop vs.length) names) (r.bindAll (params.zip vs)) (r'.bindAll (params.zip vs')) := by
  induction hvs generalizing params r r' with
  | nil =>
    rw [List.zip_nil_right]
    exact hr
  | cons hv _ ih =>
    cases params with
    | nil => exact absurd hlen (Nat.not_succ_le_zero _)
    | cons name params =>
      rw [stillFree_cons] at hr
      exact ih (L.env_bind name hr hv) (Nat.le_of_succ_le_succ hlen)

theorem value_closure {i : Nat} {self : Option String} {params : List String} {body : Expr}
    (hr : L.env w (body.freeUnder self params) r r') :
    L.value w (.closure i self params body r) (.closure i self params body r') :=
  (L.value_iff w _ _).2 (.closure i self params body hr)

/-- A function's own name is bound before its parameters. -/
theorem env_bodyEnv {f f' : Value} {vs vs' : List Value} {self : Option String} {params : List String} {body : Expr}
    (hr : L.env w (body.freeUnder self params) r r') (hf : L.value w f f') (hvs : List.Forall₂ (L.value w) vs vs')
    (hlen : vs.length ≤ params.length) :
    L.env w (stillFree (params.drop vs.length) body.free) (Interpreter.bodyEnv f self r (params.zip vs))
      (Interpreter.bodyEnv f' self r' (params.zip vs')) := by
  cases self with
  | none => exact env_bindAll hr hvs hlen
  | some name =>
    have hr : L.env w (stillFree [name] (stillFree params body.free)) r r' := by
      rw [← stillFree_cons]
      exact hr
    exact env_bindAll (L.env_bind name hr hf) hvs hlen

/-- A name is bound to a thunk with a new cell. -/
theorem newThunk {extended extended' : Env} {name : String} {e : Expr}
    (hext : L.env w (stillFree [name] names) extended extended') (hr : L.env w (e.freeAs name) r r') :
    L.Keeps w (fun w' => L.env w' names) (do return extended.extend name (.thunk (← Run.newCell) e r))
      (do return extended'.extend name (.thunk (← Run.newCell) e r')) := by
  refine bind newCell fun w' hw c c' hc => ?_
  obtain ⟨rfl, hc⟩ := hc
  exact pure (L.env_thunk name (L.env_mono hw hext) hc (L.env_mono hw hr))

theorem bindLazy {extended extended' : Env} (bindings : List (String × Expr))
    (hext : L.env w (stillFree (bindings.map (·.1)) names) extended extended')
    (hr : L.env w (bindings.flatMap fun p => p.2.free) r r') :
    L.Keeps w (fun w' => L.env w' names)
      (bindings.foldlM (fun extended (name, e) => do return extended.extend name (.thunk (← Run.newCell) e r)) extended)
      (bindings.foldlM (fun extended (name, e) => do return extended.extend name (.thunk (← Run.newCell) e r'))
        extended') := by
  induction bindings generalizing w extended extended' with
  | nil =>
    simp only [List.foldlM_nil]
    rw [List.map_nil, stillFree_nil] at hext
    exact pure hext
  | cons p bindings ih =>
    simp only [List.foldlM_cons]
    rw [List.map_cons, stillFree_cons] at hext
    rw [List.flatMap_cons] at hr
    have he := L.env_subset (Expr.freeAs_subset p.1 p.2) (env_left hr)
    refine bind (newThunk hext he) fun w' hw _ _ hext' => ?_
    exact ih hext' (L.env_mono hw (env_right hr))

variable {I J : Interpreter} {s : CallStack}

/-- The values of some expressions, one for each. -/
theorem evalAll (hI : L.Interprets I J) {α : Type} (g : α → Expr) (as : List α)
    (hr : L.env w (as.flatMap fun a => (g a).free) r r') :
    L.Keeps w (fun w' vs vs' => List.Forall₂ (L.value w') vs vs' ∧ as.length = vs.length)
      (as.mapM fun a => I.eval (g a) r s) (as.mapM fun a => J.eval (g a) r' s) := by
  have hsame : List.Forall₂ (fun a a' => a = a' ∧ a ∈ as) as as := List.forall₂_same.2 fun a ha => ⟨rfl, ha⟩
  have hvalues : L.Keeps w (fun w' vs vs' => List.Forall₂ (L.value w') vs vs' ∧ List.Forall₂ (fun _ _ => True) as vs)
      (as.mapM fun a => I.eval (g a) r s) (as.mapM fun a => J.eval (g a) r' s) := by
    refine mapM (Q := fun _ a a' => a = a' ∧ a ∈ as) (fun _ _ _ _ _ h => h) @L.value_mono hsame ?_
    rintro w' hw a _ ⟨rfl, ha⟩
    have hra := L.env_mono hw (L.env_subset (subset_flatMap (f := fun a => (g a).free) ha) hr)
    exact (hI.eval hra).imp fun _ _ _ h => ⟨h, trivial⟩
  exact hvalues.imp fun _ vs vs' h => ⟨h.1, h.2.length_eq⟩

/-- **A declaration binds its names**, whatever is free in their scope. -/
theorem declare (hI : L.Interprets I J) (d : Decl) (hr : L.env w (d.free ++ stillFree d.names names) r r') :
    L.Keeps w (fun w' => L.env w' names) (I.declare d r s) (J.declare d r' s) := by
  have hrhs := env_left hr
  have hscope := env_right hr
  cases d with
  | eager bindings =>
    rw [Decl.free, Decl.freeBindings_eq] at hrhs
    rw [Decl.names] at hscope
    refine bind (evalAll hI (fun p => p.2) bindings hrhs) fun w' hw vs vs' hvs => pure ?_
    have hlen : vs.length = (bindings.map (·.1)).length := by
      rw [List.length_map, hvs.2]
    have hext := env_bindAll (L.env_mono hw hscope) hvs.1 (le_of_eq hlen)
    rw [List.drop_of_length_le (le_of_eq hlen.symm), stillFree_nil] at hext
    exact hext
  | lazy bindings =>
    rw [Decl.free, Decl.freeBindings_eq] at hrhs
    exact bindLazy bindings hscope hrhs
  | recursive name value =>
    cases value with
    | lambda params body =>
      refine bind freshId fun w' hw i i' hi => ?_
      subst hi
      have hbody : L.env w (body.freeUnder (some name) params) r r' := by
        show L.env w (stillFree (name :: params) body.free) r r'
        rw [stillFree_cons]
        exact hrhs
      exact pure (L.env_bind name (L.env_mono hw hscope) (value_closure (L.env_mono hw hbody)))
    | _ => exact fail
  | lazyRecursive name value =>
    cases value with
    | lambda params body =>
      refine newThunk hscope ?_
      rw [Expr.freeAs_recursive]
      exact hrhs
    | _ => exact fail

end Scopes

/-! ## Functions -/

section Functions

variable {L : Lockstep W} {I J : Interpreter} {w : W} {s : CallStack} (hI : L.Interprets I J)
include hI

theorem test {f f' v v' : Value} (hf : L.value w f f') (hv : L.value w v v') :
    L.Keeps w (fun _ => Eq) (I.test f v s) (J.test f' v' s) := by
  refine bind (hI.apply hf (.cons hv .nil)) fun w' _ v v' hv => ?_
  cases (L.value_iff w' v v').1 hv with
  | bool b => exact pure rfl
  | closure i self => cases self <;> exact fail
  | _ => exact fail

theorem combine (op : Combinator) {f f' coll coll' : Value} (hf : L.value w f f') (hcoll : L.value w coll coll') :
    L.Keeps w L.value (I.combine op f coll s) (J.combine op f' coll' s) := by
  unfold Interpreter.combine
  rw [← Congruence.isCallable_eq (S := L.congruence w) hf, ← Congruence.typeName_eq (S := L.congruence w) hf]
  split
  · cases op with
    | map => exact mapOver hcoll fun w' hw v v' hv => hI.apply (L.value_mono hw hf) (.cons hv .nil)
    | filter => exact filterOver hcoll fun w' hw v v' hv => test hI (L.value_mono hw hf) hv
    | fold =>
      refine foldOver hcoll fun w' hw v v' acc acc' hv hacc => ?_
      exact hI.apply (L.value_mono hw hf) (.cons hacc (.cons hv .nil))
  · exact fail

theorem callBuiltin (builtin : Builtin) {vs vs' : List Value} (hvs : List.Forall₂ (L.value w) vs vs') :
    L.Keeps w L.value (I.callBuiltin builtin vs s) (J.callBuiltin builtin vs' s) := by
  by_cases hlen : vs.length = builtin.arity
  · cases builtin with
    | head | tail | not =>
      obtain ⟨a, rfl⟩ := List.length_eq_one_iff.1 hlen
      rcases hvs with _ | ⟨ha, ⟨⟩⟩
      exact unary _ ha
    | length =>
      obtain ⟨a, rfl⟩ := List.length_eq_one_iff.1 hlen
      rcases hvs with _ | ⟨ha, ⟨⟩⟩
      exact ofExcept (Congruence.length (S := L.congruence w) ha) Value.length_operational
    | cons | delete | hasKey | getKey =>
      obtain ⟨a, b, rfl⟩ := List.length_eq_two.1 hlen
      rcases hvs with _ | ⟨ha, _ | ⟨hb, ⟨⟩⟩⟩
      exact binary _ ha hb
    | insert =>
      obtain ⟨key, a, b, rfl⟩ := List.length_eq_three.1 hlen
      rcases hvs with _ | ⟨hkey, _ | ⟨ha, _ | ⟨hb, ⟨⟩⟩⟩⟩
      exact insert hkey ha hb
    | map | fold | filter =>
      obtain ⟨f, coll, rfl⟩ := List.length_eq_two.1 hlen
      rcases hvs with _ | ⟨hf, _ | ⟨hcoll, ⟨⟩⟩⟩
      simp only [Interpreter.callBuiltin]
      exact combine hI _ hf hcoll
  · have hlen' : vs'.length ≠ builtin.arity := hvs.length_eq ▸ hlen
    rw [Interpreter.callBuiltin_of_length_ne _ _ hlen, Interpreter.callBuiltin_of_length_ne _ _ hlen', hvs.length_eq]
    exact fail

/-- **Application, step by step.** A function that gets too few arguments keeps those it got in its environment. -/
theorem applyStep {f f' : Value} {vs vs' : List Value} (hf : L.value w f f')
    (hvs : List.Forall₂ (L.value w) vs vs') : L.Keeps w L.value (I.applyStep f vs s) (J.applyStep f' vs' s) := by
  have hlen := hvs.length_eq
  cases (L.value_iff w f f').1 hf with
  | @closure r r' i self params body hr =>
    simp only [Interpreter.applyStep, ← hlen]
    split
    · exact fail
    · next hmany =>
      have henv := env_bodyEnv hr hf hvs (Nat.le_of_not_lt hmany)
      split
      · -- the rest of the parameters are those of a plain function, whose environment binds the function itself
        refine bind freshId fun w' hw i i' hi => ?_
        subst hi
        exact pure (value_closure (L.env_mono hw henv))
      · next hfew =>
        rw [List.drop_of_length_le (Nat.le_of_not_lt hfew), stillFree_nil] at henv
        exact hI.eval henv
  | @primitive collected collected' builtin hcollected hawaits =>
    have hargs := List.rel_append hcollected hvs
    simp only [Interpreter.applyStep, ← hargs.length_eq]
    split
    · exact fail
    · split
      · next hfew => exact pure ((L.value_iff w _ _).2 (.primitive builtin hargs (L.awaits_of_lt hfew)))
      · exact callBuiltin hI builtin hargs
  | _ => exact fail

end Functions

/-! ## Expressions -/

section Expressions

variable {L : Lockstep W} {I J : Interpreter} {w : W} {s : CallStack} {r r' : Env} (hI : L.Interprets I J)
include hI

/-- By need, both runs find the cell filled or both fill it. -/
theorem force (strategy : Strategy) {c : Nat} {e : Expr} (hc : L.cell w c) (hr : L.env w e.free r r') :
    L.Keeps w L.value (I.force strategy c e r s) (J.force strategy c e r' s) := by
  cases strategy with
  | byName => exact hI.eval hr
  | byNeed =>
    have hheld : L.Keeps w (fun w' => Option.Rel (L.value w')) (memo? c) (memo? c) :=
      fun σ τ hstore => .done le_rfl (L.memo hstore hc) hstore
    refine bind hheld fun w₁ hw₁ held held' h => ?_
    cases h with
    | some h => exact pure h
    | none =>
      refine bind (hI.eval (L.env_mono hw₁ hr)) fun w₂ hw₂ v v' hv => ?_
      exact memoize (L.cell_mono (hw₁.trans hw₂) hc) hv

theorem lookupName (strategy : Strategy) {name : String} (hr : L.env w [name] r r') :
    L.Keeps w L.value (I.lookup strategy name r s) (J.lookup strategy name r' s) := by
  obtain ⟨hfound, hunbound⟩ := L.lookup hr (List.mem_singleton.2 rfl)
  unfold Interpreter.lookup
  generalize r.lookup? name = found at hfound hunbound
  generalize r'.lookup? name = found' at hfound
  cases hfound with
  | none => exact fun σ τ hstore => .failed le_rfl (hunbound rfl) hstore
  | some hb =>
    cases hb with
    | value hv => exact pure hv
    | thunk hc hr => exact force hI strategy hc hr

theorem evalPairs (config : Config) {pairs : List (Expr × Expr)} (hr : L.env w (Expr.freePairs pairs) r r') :
    L.Keeps w L.value (I.evalStep config (.dict pairs) r s) (J.evalStep config (.dict pairs) r' s) := by
  rw [Expr.freePairs_eq] at hr
  have hsame : List.Forall₂ (fun p p' => p = p' ∧ p ∈ pairs) pairs pairs :=
    List.forall₂_same.2 fun p hp => ⟨rfl, hp⟩
  refine bind (R := L.dict) ?_ fun w' _ ds ds' hds => pure (value_dict hds)
  refine foldlM (Q := fun _ p p' => p = p' ∧ p ∈ pairs) (fun _ _ _ _ _ h => h) hsame ⟨.nil, L.keys.nil⟩ ?_
  rintro w₁ hw₁ p _ ds ds' ⟨rfl, hp⟩ hds
  have hrp := L.env_mono hw₁ (L.env_subset (subset_flatMap (f := fun p => p.1.free ++ p.2.free) hp) hr)
  refine bind (hI.eval (env_left hrp)) fun w₂ hw₂ key key' hkey => ?_
  refine bind (hI.eval (L.env_mono hw₂ (env_right hrp))) fun w₃ hw₃ v v' hv => ?_
  exact addPair (grows_dict (hw₂.trans hw₃) hds) (L.value_mono hw₃ hkey) hv

/-- One item of a sequence, with what is free in the later ones. -/
theorem sequenceItem (limit : Option Nat) {e : Expr} {names : List String}
    (hr : L.env w (e.free ++ stillFree e.declared names) r r') :
    L.Keeps w (fun w' p p' => L.env w' names p.1 p'.1 ∧ L.value w' p.2 p'.2) (I.sequenceItem limit e r s)
      (J.sequenceItem limit e r' s) := by
  -- an item that declares nothing leaves the environment to the later ones
  have hplain : stillFree e.declared names = names →
      L.Keeps w (fun w' p p' => L.env w' names p.1 p'.1 ∧ L.value w' p.2 p'.2)
        (do return (r, ← I.eval e r s)) (do return (r', ← J.eval e r' s)) := by
    intro hdeclared
    refine bind (hI.eval (env_left hr)) fun w' hw v v' hv => pure ⟨L.env_mono hw ?_, hv⟩
    rw [← hdeclared]
    exact env_right hr
  cases e with
  | declare d =>
    refine bind (R := fun w' => L.env w' names) (inFrame (declare hI d hr)) fun w' _ extended extended' h => ?_
    exact pure ⟨h, (L.value_iff w' _ _).2 .unit⟩
  | _ => exact hplain (stillFree_nil names)

theorem sequenceItems (limit : Option Nat) {items : List Expr} (p p' : Env × Value)
    (hr : L.env w (Expr.freeItems items) p.1 p'.1) (hv : L.value w p.2 p'.2) :
    L.Keeps w (fun w' q q' => L.value w' q.2 q'.2)
      (items.foldlM (fun (env, _) e => I.sequenceItem limit e env s) p)
      (items.foldlM (fun (env, _) e => J.sequenceItem limit e env s) p') := by
  induction items generalizing w p p' with
  | nil =>
    simp only [List.foldlM_nil]
    exact pure hv
  | cons e es ih =>
    simp only [List.foldlM_cons]
    rw [Expr.freeItems] at hr
    exact bind (sequenceItem hI limit hr) fun w' _ q q' hq => ih q q' hq.1 hq.2

theorem sequence (limit : Option Nat) {items : List Expr} (hr : L.env w (Expr.freeItems items) r r') :
    L.Keeps w L.value (I.sequence limit items r s) (J.sequence limit items r' s) := by
  cases items with
  | nil => exact fail
  | cons e es =>
    refine bind (sequenceItems hI limit (r, .unit) (r', .unit) hr ?_) fun w' _ p p' hp => pure hp
    exact (L.value_iff w _ _).2 .unit

/-- **Evaluation, step by step.** -/
theorem evalStep (config : Config) {e : Expr} (hr : L.env w e.free r r') :
    L.Keeps w L.value (I.evalStep config e r s) (J.evalStep config e r' s) := by
  cases e with
  | unit => exact pure ((L.value_iff w _ _).2 .unit)
  | integer n => exact pure ((L.value_iff w _ _).2 (.int n))
  | boolean b => exact pure ((L.value_iff w _ _).2 (.bool b))
  | string t => exact pure ((L.value_iff w _ _).2 (.str t))
  | list items =>
    rw [Expr.free, Expr.freeAll_eq] at hr
    refine bind (evalAll hI id items hr) fun w' _ vs vs' hvs => ?_
    exact pure ((L.value_iff w' _ _).2 (.list hvs.1))
  | dict pairs => exact evalPairs hI config hr
  | symbol name => exact lookupName hI config.strategy hr
  | unary op e => exact bind (hI.eval hr) fun w' _ v v' hv => unary op hv
  | binary op l r₂ =>
    refine bind (hI.eval (env_left hr)) fun w₁ hw₁ a a' ha => ?_
    refine bind (hI.eval (L.env_mono hw₁ (env_right hr))) fun w₂ hw₂ b b' hb => ?_
    exact binary op (L.value_mono hw₂ ha) hb
  | insert k v d =>
    have hvd := env_right hr
    refine bind (hI.eval (env_left hr)) fun w₁ hw₁ key key' hkey => ?_
    refine bind (hI.eval (L.env_mono hw₁ (env_left hvd))) fun w₂ hw₂ v v' hv => ?_
    refine bind (hI.eval (L.env_mono (hw₁.trans hw₂) (env_right hvd))) fun w₃ hw₃ dict dict' hdict => ?_
    exact insert (L.value_mono (hw₂.trans hw₃) hkey) (L.value_mono hw₃ hv) hdict
  | combine op c f =>
    refine bind (hI.eval (env_left hr)) fun w₁ hw₁ coll coll' hcoll => ?_
    refine bind (hI.eval (L.env_mono hw₁ (env_right hr))) fun w₂ hw₂ func func' hfunc => ?_
    exact combine hI op hfunc (L.value_mono hw₂ hcoll)
  | branch c y n =>
    refine bind (hI.eval (env_left hr)) fun w' hw v v' hv => ?_
    have hyn := L.env_mono hw (env_right hr)
    cases (L.value_iff w' v v').1 hv with
    | bool b =>
      cases b with
      | true => exact hI.eval (env_left hyn)
      | false => exact hI.eval (env_right hyn)
    | closure i self => cases self <;> exact fail
    | _ => exact fail
  | letIn d body => exact bind (declare hI d hr) fun w' _ extended extended' hext => hI.eval hext
  | declare d =>
    have hr : L.env w (d.free ++ stillFree d.names []) r r' := by
      rw [show stillFree d.names [] = [] from rfl, List.append_nil]
      exact hr
    exact bind (declare hI d hr) fun w' _ _ _ _ => pure ((L.value_iff w' _ _).2 .unit)
  | lambda params body =>
    refine bind freshId fun w' hw i i' hi => ?_
    subst hi
    exact pure (value_closure (L.env_mono hw hr))
  | apply f es =>
    have hes := env_right hr
    rw [Expr.freeAll_eq] at hes
    refine bind (hI.eval (env_left hr)) fun w₁ hw₁ f f' hf => ?_
    refine bind (evalAll hI id es (L.env_mono hw₁ hes)) fun w₂ hw₂ vs vs' hvs => ?_
    exact hI.apply (L.value_mono hw₂ hf) hvs.1
  | sequence items => exact sequence hI config.maxDepth hr
  | pipe f e =>
    refine bind (hI.eval (env_left hr)) fun w₁ hw₁ f f' hf => ?_
    refine bind (hI.eval (L.env_mono hw₁ (env_right hr))) fun w₂ hw₂ v v' hv => ?_
    exact hI.apply (L.value_mono hw₂ hf) (.cons hv .nil)

end Expressions

/-! ## Evaluators -/

section Evaluators

variable {L : Lockstep W} {I J : Interpreter}

/-- **One more unit of fuel keeps evaluators in step.** -/
theorem Interprets.next (hI : L.Interprets I J) (config : Config) : L.Interprets (I.next config) (J.next config) where
  eval hr := inFrame (evalStep hI config hr)
  apply hf hvs := applyStep hI hf hvs

theorem Interprets.zero (config : Config) : L.Interprets (interpreter config 0) (interpreter config 0) where
  eval _ _ _ _ := .outOfFuel
  apply _ _ _ _ _ := .outOfFuel

end Evaluators

end Lockstep

end Treewalk
