import Treewalk.Proofs.CallByNeed

/-!
# Laziness is unobservable

`Expr.eagerly` makes every lazy declaration of a program eager. If the eager program has a value, and does not test
identities to find it, then the program itself has a value that looks the same (`laziness_unobservable`).

The two runs differ in what they bind names to: where the eager run binds a value, the other one binds a thunk, which is
evaluated later, or never. The relation between them (`Value.Delayed`) is a logical relation: a thunk stands for a value
if its evaluation by name ends in a value that stands for it, on every stack and from every store.
-/

namespace Treewalk

open Run Filter

/-! ## Eager programs -/

section Eagerly

mutual

/-- The expression with every lazy declaration made eager, however deep it stands. -/
def Expr.eagerly : Expr → Expr
  | .unit => .unit
  | .integer n => .integer n
  | .boolean b => .boolean b
  | .string s => .string s
  | .list items => .list (Expr.eagerlyAll items)
  | .dict pairs => .dict (Expr.eagerlyPairs pairs)
  | .symbol name => .symbol name
  | .unary op e => .unary op e.eagerly
  | .binary op l r => .binary op l.eagerly r.eagerly
  | .insert k v d => .insert k.eagerly v.eagerly d.eagerly
  | .combine op c f => .combine op c.eagerly f.eagerly
  | .branch c y n => .branch c.eagerly y.eagerly n.eagerly
  | .letIn decl body => .letIn decl.eagerly body.eagerly
  | .declare decl => .declare decl.eagerly
  | .lambda params body => .lambda params body.eagerly
  | .apply f args => .apply f.eagerly (Expr.eagerlyAll args)
  | .sequence items => .sequence (Expr.eagerlyAll items)
  | .pipe f e => .pipe f.eagerly e.eagerly

def Expr.eagerlyAll : List Expr → List Expr
  | [] => []
  | e :: es => e.eagerly :: Expr.eagerlyAll es

def Expr.eagerlyPairs : List (Expr × Expr) → List (Expr × Expr)
  | [] => []
  | (k, v) :: ps => (k.eagerly, v.eagerly) :: Expr.eagerlyPairs ps

/-- The declaration that binds the same names at once. -/
def Decl.eagerly : Decl → Decl
  | .eager bindings => .eager (Decl.eagerlyBindings bindings)
  | .lazy bindings => .eager (Decl.eagerlyBindings bindings)
  | .recursive name value => .recursive name value.eagerly
  | .lazyRecursive name value => .recursive name value.eagerly

def Decl.eagerlyBindings : List (String × Expr) → List (String × Expr)
  | [] => []
  | (name, e) :: bindings => (name, e.eagerly) :: Decl.eagerlyBindings bindings

end

theorem Expr.forall₂_eagerlyAll (es : List Expr) :
    List.Forall₂ (fun e e' => e = e'.eagerly) (Expr.eagerlyAll es) es := by
  induction es with
  | nil => exact .nil
  | cons e es ih => exact .cons rfl ih

theorem Expr.forall₂_eagerlyPairs (ps : List (Expr × Expr)) :
    List.Forall₂ (fun e e' => e = e'.eagerly) ((Expr.eagerlyPairs ps).map (·.1)) (ps.map (·.1)) ∧
      List.Forall₂ (fun e e' => e = e'.eagerly) ((Expr.eagerlyPairs ps).map (·.2)) (ps.map (·.2)) := by
  induction ps with
  | nil => exact ⟨.nil, .nil⟩
  | cons p ps ih => exact ⟨.cons rfl ih.1, .cons rfl ih.2⟩

theorem Decl.forall₂_eagerlyBindings (bindings : List (String × Expr)) :
    List.Forall₂ (fun p p' => p.1 = p'.1 ∧ p.2 = p'.2.eagerly) (Decl.eagerlyBindings bindings) bindings := by
  induction bindings with
  | nil => exact .nil
  | cons p bindings ih => exact .cons ⟨rfl, rfl⟩ ih

theorem Decl.map_fst_eagerlyBindings (bindings : List (String × Expr)) :
    (Decl.eagerlyBindings bindings).map (·.1) = bindings.map (·.1) := by
  induction bindings with
  | nil => rfl
  | cons p bindings ih => rw [Decl.eagerlyBindings, List.map_cons, List.map_cons, ih]

/-- An eager expression has the form of the expression itself. -/
theorem Expr.layer_eagerly (e : Expr) :
    Expr.Layer (fun e e' => e = e'.eagerly) (fun d d' => d = d'.eagerly) e.eagerly e := by
  cases e with
  | list es => exact .list (forall₂_eagerlyAll es)
  | dict ps =>
    obtain ⟨hks, hvs⟩ := forall₂_eagerlyPairs ps
    exact .dict hks hvs
  | apply f es => exact .apply rfl (forall₂_eagerlyAll es)
  | sequence es => exact .sequence (forall₂_eagerlyAll es)
  | _ => constructor <;> rfl

end Eagerly

/-! ## Delayed values -/

section Delayed

mutual

/-- A value of an eager run, and a value that stands for it in the run of the program itself. -/
inductive Value.Delayed : Value → Value → Prop
  | unit : Value.Delayed .unit .unit
  | int (n : Int64) : Value.Delayed (.int n) (.int n)
  | bool (b : Bool) : Value.Delayed (.bool b) (.bool b)
  | str (s : String) : Value.Delayed (.str s) (.str s)
  | list {vs vs' : List Value} : List.Forall₂ Value.Delayed vs vs' → Value.Delayed (.list vs) (.list vs')
  | dict {ps ps' : List (Value × Value)} : List.Forall₂ Value.Delayed (ps.map (·.1)) (ps'.map (·.1)) →
      List.Forall₂ Value.Delayed (ps.map (·.2)) (ps'.map (·.2)) → Value.Delayed (.dict ps) (.dict ps')
  | closure {i i' : Nat} {body : Expr} {r r' : Env} (self : Option String) (params : List String) :
      (∀ name, Option.Rel Binding.Delayed (Env.lookup? r name) (Env.lookup? r' name)) →
      Value.Delayed (.closure i self params body.eagerly r) (.closure i' self params body r')
  | primitive {vs vs' : List Value} (f : Builtin) : List.Forall₂ Value.Delayed vs vs' →
      Value.Delayed (.primitive f vs) (.primitive f vs')

/-- What a name is bound to in an eager run, and what stands for it in the run of the program itself. -/
inductive Binding.Delayed : Binding → Binding → Prop
  | value {v v' : Value} : Value.Delayed v v' → Binding.Delayed (.value v) (.value v')
  | thunk {v : Value} {cell : Nat} {e : Expr} {r' : Env} (result : CallStack → Store → Value) :
      (∀ s τ, τ.testedIdentity = false → Value.Delayed v (result s τ)) →
      (∀ s τ, τ.testedIdentity = false → ∃ τ', τ'.testedIdentity = false ∧
        ∀ᶠ k in atTop, eval ⟨none, .byName⟩ k e r' s τ = .done (result s τ) τ') →
      Binding.Delayed (.value v) (.thunk cell e r')

end

/-- Environments that bind the same names, to values and to what stands for them. -/
def Env.Delayed (r r' : Env) : Prop :=
  ∀ name, Option.Rel Binding.Delayed (r.lookup? name) (r'.lookup? name)

theorem Value.delayed_iff (v v' : Value) : v.Delayed v' ↔ Value.Layer Value.Delayed
    (fun f f' => True ∧ f.2.1 = f'.2.1.eagerly ∧ Env.Delayed f.2.2 f'.2.2) v v' := by
  constructor
  · intro h
    cases h with
    | unit => exact .unit
    | int n => exact .int n
    | bool b => exact .bool b
    | str s => exact .str s
    | list hvs => exact .list hvs
    | dict hks hvs => exact .dict (forall₂_pairs_iff.2 ⟨hks, hvs⟩)
    | closure self params hr => exact .closure self params ⟨trivial, rfl, hr⟩
    | primitive f hvs => exact .primitive f hvs
  · intro h
    cases h with
    | unit => exact .unit
    | int n => exact .int n
    | bool b => exact .bool b
    | str s => exact .str s
    | list hvs => exact .list hvs
    | dict hps => exact .dict (forall₂_pairs_iff.1 hps).1 (forall₂_pairs_iff.1 hps).2
    | closure self params h =>
      obtain ⟨_, hbody, hr⟩ := h
      dsimp only at hbody hr
      rw [hbody]
      exact .closure self params hr
    | primitive f hvs => exact .primitive f hvs

/-- The empty name is never found, so it does not matter what it is bound to. -/
theorem Env.Delayed.extend {r r' : Env} {b b' : Binding} (name : String) (hr : Env.Delayed r r')
    (hb : name ≠ "" → b.Delayed b') : Env.Delayed (r.extend name b) (r'.extend name b') := by
  intro other
  rw [Env.lookup?_extend, Env.lookup?_extend]
  split
  · next h => exact .some (hb (h.1 ▸ h.2))
  · exact hr other

theorem Env.Delayed.bind {r r' : Env} {v v' : Value} (name : String) (hr : Env.Delayed r r') (hv : v.Delayed v') :
    Env.Delayed (r.bind name v) (r'.bind name v') :=
  hr.extend name fun _ => .value hv

/-- The run of an eager program and the run of the program itself, by name. Every failure of the eager run is
pardoned. -/
def delayed (strategy : Strategy) : Simulation Unit where
  left := ⟨none, strategy⟩
  right := ⟨none, .byName⟩
  expr e e' := e = e'.eagerly
  decl d d' := d = d'.eagerly
  ident _ _ _ := True
  value _ := Value.Delayed
  env _ := Env.Delayed
  store _ _ τ := τ.testedIdentity = false
  stack _ _ := True
  failure _ _ := True
  pardons _ := True
  faithful := False
  expr_layer := by
    rintro _ e rfl
    exact Or.inl e.layer_eagerly
  value_iff _ := Value.delayed_iff
  ident_faithful := nofun
  value_mono _ h := h
  env_mono _ h := h
  env_bind := Env.Delayed.bind
  fresh h := ⟨(), le_rfl, trivial, h⟩
  note := nofun
  failure_refl _ := trivial
  frame _ _ := Or.inr ⟨rfl, rfl, trivial⟩
  attach _ _ := trivial
  pardons_attach _ _ _ := trivial

end Delayed

/-! ## Declarations -/

section Declarations

variable {strategy : Strategy} {I : Interpreter} {r r' : Env} {s : CallStack}

/-- What an expression evaluates to in the eager run, its thunk stands for. -/
theorem delayed_thunk (hI : (delayed strategy).Interprets I (interpreter ⟨none, .byName⟩)) (hr : Env.Delayed r r')
    {e : Expr} {v : Value} {σ σ' : Store} (hv : I.eval e.eagerly r s σ = .done v σ')
    (huntested : σ'.testedIdentity = false) (cell : Nat) : Binding.Delayed (.value v) (.thunk cell e r') := by
  have hstands : ∀ s' τ, ∃ v', τ.testedIdentity = false → v.Delayed v' ∧ ∃ τ', τ'.testedIdentity = false ∧
      ∀ᶠ k in atTop, eval ⟨none, .byName⟩ k e r' s' τ = .done v' τ' := by
    intro s' τ
    by_cases hτ : τ.testedIdentity = false
    · have hfollows : (delayed strategy).Follows () (fun _ => Value.Delayed) (I.eval e.eagerly r s σ)
          fun k => eval ⟨none, .byName⟩ k e r' s' τ := hI.eval rfl hr trivial σ τ hτ
      rw [hv] at hfollows
      obtain ⟨_, v', τ', _, hv', hτ', hevals⟩ := hfollows.exists_done huntested
      exact ⟨v', fun _ => ⟨hv', τ', hτ', hevals⟩⟩
    · exact ⟨v, fun h => absurd h hτ⟩
  choose result hresult using hstands
  exact .thunk result (fun s' τ hτ => (hresult s' τ hτ).1) fun s' τ hτ => (hresult s' τ hτ).2

/-- Thunks are bound one after another, each to a new cell. -/
theorem delayed_bindLazy {bindings : List (String × Expr)} {vs : List Value}
    (hvs : List.Forall₂ (fun v p => ∀ cell, Binding.Delayed (.value v) (.thunk cell p.2 r')) vs bindings)
    {extended extended' : Env} (hext : Env.Delayed extended extended') {τ : Store} (hτ : τ.testedIdentity = false) :
    ∃ env τ', (bindings.foldlM (fun env (p : String × Expr) => do
          return Env.extend env p.1 (.thunk (← newCell) p.2 r')) extended' : Run Env) τ = .done env τ' ∧
      τ'.testedIdentity = false ∧ Env.Delayed (extended.bindAll ((bindings.map (·.1)).zip vs)) env := by
  induction hvs generalizing extended extended' τ with
  | nil => exact ⟨extended', τ, rfl, hτ, hext⟩
  | @cons v p vs bindings hv _ ih =>
    rw [List.foldlM_cons]
    exact ih (hext.extend p.1 fun _ => hv τ.cells.size) (τ := { τ with cells := τ.cells.push none }) hτ

/-- Eager declarations evaluate to what the thunks of the bindings stand for. -/
theorem delayed_mapM [I.Remembers] (hI : (delayed strategy).Interprets I (interpreter ⟨none, .byName⟩))
    (hr : Env.Delayed r r') (bindings : List (String × Expr)) :
    (delayed strategy).Simulates ()
      (fun _ vs bindings' => bindings' = bindings ∧
        List.Forall₂ (fun v p => ∀ cell, Binding.Delayed (.value v) (.thunk cell p.2 r')) vs bindings)
      ((Decl.eagerlyBindings bindings).mapM fun p => I.eval p.2 r s) fun _ => pure bindings := by
  have hall : (delayed strategy).Simulates ()
      (fun _ => List.Forall₂ fun v p => ∀ cell, Binding.Delayed (.value v) (.thunk cell p.2 r'))
      ((Decl.eagerlyBindings bindings).mapM fun p => I.eval p.2 r s) fun _ => bindings.mapM fun p => pure (id p) := by
    refine Simulation.mapM (Q := fun _ (p p' : String × Expr) => p.1 = p'.1 ∧ p.2 = p'.2.eagerly)
      (fun _ _ _ _ _ h => h) (fun _ _ _ _ _ h => h) inferInstance (Decl.forall₂_eagerlyBindings bindings) ?_
    rintro _ - p p' ⟨_, hp⟩ σ τ hτ
    rw [hp]
    cases hv : I.eval p'.2.eagerly r s σ with
    | outOfFuel => exact .excused .outOfFuel
    | failed f σ' => exact .excused (.pardoned trivial)
    | done v σ' =>
      cases htested : σ'.testedIdentity with
      | true => exact .excused (.tested id htested)
      | false =>
        refine .done le_rfl (fun cell => ?_) hτ (Eventually.of_forall fun _ => rfl)
        exact delayed_thunk hI hr hv htested cell
  rw [List.mapM_pure, List.map_id] at hall
  intro σ τ hτ
  refine (hall σ τ hτ).imp fun _ vs bindings' σ' τ' _ hpure _ hvs => ?_
  obtain ⟨_, hk⟩ := hpure.exists
  cases hk
  exact ⟨rfl, hvs⟩

theorem delayed_lazy [I.Remembers] (hI : (delayed strategy).Interprets I (interpreter ⟨none, .byName⟩))
    (hr : Env.Delayed r r') (bindings : List (String × Expr)) :
    (delayed strategy).Simulates () (fun _ => Env.Delayed) (I.bindEager (Decl.eagerlyBindings bindings) r s)
      fun _ => bindLazy bindings r' := by
  have hbind : (delayed strategy).Simulates () (fun _ => Env.Delayed)
      (I.bindEager (Decl.eagerlyBindings bindings) r s) fun _ => pure bindings >>= fun bs => bindLazy bs r' := by
    unfold Interpreter.bindEager
    rw [Decl.map_fst_eagerlyBindings]
    refine Simulation.bind inferInstance (delayed_mapM hI hr bindings) ?_
    rintro _ - vs _ ⟨rfl, hvs⟩ σ τ hτ
    obtain ⟨env, τ', hrun, hτ', henv⟩ := delayed_bindLazy hvs hr hτ
    exact .done le_rfl henv hτ' (Eventually.of_forall fun _ => hrun)
  exact hbind

/-- The builder of a recursive function makes it, if it has a name. -/
theorem eval_builder {name : String} (hname : name ≠ "") (params : List String) (body : Expr) (r : Env) (s : CallStack)
    (τ : Store) : ∀ᶠ k in atTop,
      eval ⟨none, .byName⟩ k (.letIn (.recursive name (.lambda params body)) (.symbol name)) r s τ =
        .done (.closure τ.nextId (some name) params body r) { τ with nextId := τ.nextId + 1 } := by
  refine eventually_of_succ (eventually_of_succ (Eventually.of_forall fun k => ?_))
  have hsymbol : ∀ v inner store,
      (interpreter ⟨none, .byName⟩ (k + 1)).eval (.symbol name) (r.bind name v) inner store = .done v store := by
    intro v inner store
    have hlookup : (r.bind name v).lookup? name = some (.value v) := by
      rw [Env.bind, Env.lookup?_extend, if_pos ⟨rfl, hname⟩]
    show eval ⟨none, .byName⟩ (k + 1) (.symbol name) (r.bind name v) inner store = .done v store
    simp only [eval_succ, Run.inFrame, CallStack.pushWithin_none, Interpreter.evalStep, Interpreter.lookup, hlookup]
    rfl
  simp only [eval_succ, Run.inFrame, CallStack.pushWithin_none, Interpreter.evalStep, Interpreter.declare,
    bindRecursive, bind_apply, Run.freshId, pure_apply, hsymbol]

theorem delayed_declare [I.Remembers] (hI : (delayed strategy).Interprets I (interpreter ⟨none, .byName⟩))
    (hr : Env.Delayed r r') (d : Decl) (s' : CallStack) :
    (delayed strategy).Simulates () (fun _ => Env.Delayed) (I.declare d.eagerly r s)
      fun k => (interpreter ⟨none, .byName⟩ k).declare d r' s' := by
  cases d with
  | eager bindings =>
    simp only [Decl.eagerly, Interpreter.declare, Interpreter.bindEager, Decl.map_fst_eagerlyBindings]
    refine Simulation.bind (R := fun _ => List.Forall₂ Value.Delayed) inferInstance ?_ ?_
    · refine Simulation.mapM (Q := fun _ (p p' : String × Expr) => p.1 = p'.1 ∧ p.2 = p'.2.eagerly)
        (fun _ _ _ _ _ h => h) (fun _ _ _ _ _ h => h) inferInstance (Decl.forall₂_eagerlyBindings bindings) ?_
      exact fun w _ p p' hp => hI.eval (w := w) hp.2 hr trivial
    · exact fun w _ vs vs' hvs => Simulation.pure (Simulation.env_bindAll (S := delayed strategy) (w := w) hr hvs _)
  | lazy bindings => exact delayed_lazy hI hr bindings
  | recursive name value =>
    cases value with
    | lambda params body =>
      refine Simulation.bind inferInstance Simulation.freshId fun _ _ id id' _ => Simulation.pure ?_
      exact hr.bind name (.closure (some name) params hr)
    | _ => exact Simulation.fail _
  | lazyRecursive name value =>
    cases value with
    | lambda params body =>
      intro σ τ hτ
      have hτ' : { τ with cells := τ.cells.push none }.testedIdentity = false := hτ
      refine .done le_rfl (hr.extend name fun hname => ?_) hτ' (Eventually.of_forall fun _ => rfl)
      refine .thunk (fun _ τ => .closure τ.nextId (some name) params body r') ?_ ?_
      · exact fun _ _ _ => .closure (some name) params hr
      · exact fun s τ hτ => ⟨{ τ with nextId := τ.nextId + 1 }, hτ, eval_builder hname params body r' s τ⟩
    | _ => exact Simulation.fail _

end Declarations

/-! ## The two runs -/

section Main

/-- By name, the program follows the eager program. -/
theorem interprets_delayed (strategy : Strategy) (n : Nat) :
    (delayed strategy).Interprets (interpreter ⟨none, strategy⟩ n) (interpreter ⟨none, .byName⟩) := by
  refine Simulation.interprets (S := delayed strategy) (fun n hI => ⟨?_, ?_, nofun⟩) n
  · intro w r r' s s' name hr _
    unfold Interpreter.lookup
    have hbinding := hr name
    generalize Env.lookup? r name = found at hbinding
    generalize Env.lookup? r' name = found' at hbinding
    cases hbinding with
    | none => exact Simulation.fail _
    | some hb =>
      cases hb with
      | value hv => exact Simulation.pure hv
      | thunk result hresult hevals =>
        intro σ τ hτ
        obtain ⟨τ', hτ', hevals⟩ := hevals s' τ hτ
        exact .done le_rfl (hresult s' τ hτ) hτ' hevals
  · rintro w _ d r r' s s' rfl hr _
    exact delayed_declare hI hr d s'

/-- The builtins are bound to the same values in both runs. -/
theorem delayed_withBuiltins (strategy : Strategy) : (delayed strategy).env () Env.withBuiltins Env.withBuiltins := by
  refine Simulation.env_withBuiltins fun name => ?_
  unfold Env.lookup?
  split <;> exact .none

/-- A program whose eager version has a value has, by name, a value that stands for it. -/
theorem exists_delayed {strategy : Strategy} {n : Nat} {e : Expr} {v : Value} {store store' : Store}
    (h : evalProgram ⟨none, strategy⟩ n e.eagerly store = .done v store') (huntested : store'.testedIdentity = false) :
    ∃ k v' τ, evalProgram ⟨none, .byName⟩ k e store = .done v' τ ∧ τ.testedIdentity = false ∧ v.Delayed v' := by
  have htested : ¬(evalProgram ⟨none, strategy⟩ n e.eagerly store).Tested := by
    rw [h]
    exact Outcome.not_tested_done.2 huntested
  have hstore := ((remembers_interpreter ⟨none, strategy⟩ n).eval e.eagerly _ _).untested htested
  have hfollows : (delayed strategy).Follows () (fun _ => Value.Delayed)
      (evalProgram ⟨none, strategy⟩ n e.eagerly store) fun k => evalProgram ⟨none, .byName⟩ k e store :=
    (interprets_delayed strategy n).eval rfl (delayed_withBuiltins strategy) trivial store store hstore
  rw [h] at hfollows
  obtain ⟨_, v', τ, _, hv, hτ, hevals⟩ := hfollows.exists_done huntested
  obtain ⟨k, hk⟩ := hevals.exists
  exact ⟨k, v', τ, hk, hτ, hv⟩

/-- **Laziness is unobservable in programs whose eager version succeeds**, if that does not test identities: the program
has a value that looks like that of the eager version, and is equal to it if it contains no function. -/
theorem laziness_unobservable (strategy : Strategy) (n : Nat) (e : Expr) (v : Value) (store store' : Store)
    (h : evalProgram ⟨none, strategy⟩ n e.eagerly store = .done v store') (huntested : store'.testedIdentity = false) :
    ∃ k v' store'', evalProgram ⟨none, strategy⟩ k e store = .done v' store'' ∧ v'.typeName = v.typeName ∧
      v'.display = v.display ∧ (v.isData = true → (v' == v) = true) := by
  obtain ⟨k, v', τ, hk, hτ, hv⟩ := exists_delayed h huntested
  have hvalue : ((delayed strategy).resemblance ()).value v v' := hv
  have htype := Resemblance.typeName_eq hvalue
  have hdisplay := Resemblance.display_eq hvalue
  cases strategy with
  | byName =>
    refine ⟨k, v', τ, hk, htype.symm, hdisplay.symm, fun hdata => ?_⟩
    rw [Resemblance.eq_of_isData hvalue hdata]
    exact Value.beq_refl v
  | byNeed =>
    -- by need, the program ends as it does by name
    have hnone : Env.thunks Env.withBuiltins = [] := rfl
    obtain ⟨m, v'', store'', hm, herase⟩ := exists_byNeed (by rw [hnone]; nofun) (by rw [hnone]; nofun) hk hτ
    have hvalue' : erased.value v' v'' := herase
    refine ⟨m, v'', store'', hm, ?_, ?_, fun hdata => ?_⟩
    · rw [← Resemblance.typeName_eq hvalue', htype]
    · rw [← Resemblance.display_eq hvalue', hdisplay]
    · have heq := Resemblance.eq_of_isData hvalue hdata
      rw [heq] at hvalue'
      rw [Resemblance.eq_of_isData hvalue' hdata]
      exact Value.beq_refl v

/-- A lazy variable that a lazy recursive function uses: both are bound to thunks, and the eager version binds the same
names to `3` and to the function. -/
theorem laziness_unobservable_sum : ∃ k v store, evalProgram ⟨none, .byNeed⟩ k
      (.letIn (.lazy [("x", .operator .add (.integer 1) (.integer 2))])
        (.letIn (.lazyRecursive "f" (.lambda ["n"] (.operator .add (.symbol "n") (.symbol "x"))))
          (.apply (.symbol "f") [.symbol "x"]))) {} = .done v store ∧
    v.typeName = "int" ∧ v.display = "6" ∧ (v == .int 6) = true := by
  obtain ⟨k, v, store, hk, htype, hdisplay, hdata⟩ := laziness_unobservable .byNeed 6
    (.letIn (.lazy [("x", .operator .add (.integer 1) (.integer 2))])
      (.letIn (.lazyRecursive "f" (.lambda ["n"] (.operator .add (.symbol "n") (.symbol "x"))))
        (.apply (.symbol "f") [.symbol "x"]))) (.int 6) {} { nextId := 1 } rfl rfl
  exact ⟨k, v, store, hk, htype, hdisplay.trans (by decide), hdata rfl⟩

end Main

end Treewalk
