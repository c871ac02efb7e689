import Treewalk.Proofs.LockstepStep

/-!
# Only free variables matter

Two evaluations of one expression in environments that bind its free variables alike end alike
(`only_free_variables_matter`): both or neither end, failures are equal, and values differ in nothing that can be
looked up (`Value.Alike`). The bindings that the environments do not share are captured by the functions and thunks
that are made on the way, so values that are alike are those whose environments bind alike what their own functions and
thunks can look up, and so on for the values bound there.
-/

namespace Treewalk

open Run

/-! ## Values that are alike -/

section Alike

mutual

/-- Values that differ only in bindings that no function or thunk inside them can look up. -/
inductive Value.Alike : Value → Value → Prop
  | unit : Value.Alike .unit .unit
  | int (n : Int64) : Value.Alike (.int n) (.int n)
  | bool (b : Bool) : Value.Alike (.bool b) (.bool b)
  | str (s : String) : Value.Alike (.str s) (.str s)
  | list {vs vs' : List Value} : List.Forall₂ Value.Alike vs vs' → Value.Alike (.list vs) (.list vs')
  | dict {ps ps' : List (Value × Value)} : List.Forall₂ Value.Alike (ps.map (·.1)) (ps'.map (·.1)) →
      List.Forall₂ Value.Alike (ps.map (·.2)) (ps'.map (·.2)) → Value.Alike (.dict ps) (.dict ps')
  /-- The same function, but for what it does not take from its environment. -/
  | closure {r r' : Env} (i : Nat) (self : Option String) (params : List String) (body : Expr) :
      (∀ name ∈ body.freeUnder self params, Option.Rel Binding.Alike (Env.lookup? r name) (Env.lookup? r' name)) →
      Value.Alike (.closure i self params body r) (.closure i self params body r')
  | primitive {vs vs' : List Value} (f : Builtin) : List.Forall₂ Value.Alike vs vs' →
      Value.Alike (.primitive f vs) (.primitive f vs')

/-- Values that are alike, or thunks of one expression that find alike what is free in it. -/
inductive Binding.Alike : Binding → Binding → Prop
  | value {v v' : Value} : Value.Alike v v' → Binding.Alike (.value v) (.value v')
  | thunk {r r' : Env} (cell : Nat) (e : Expr) :
      (∀ name ∈ e.free, Option.Rel Binding.Alike (Env.lookup? r name) (Env.lookup? r' name)) →
      Binding.Alike (.thunk cell e r) (.thunk cell e r')

end

/-- Environments that bind some names alike. -/
def Env.AlikeOn (names : List String) (r r' : Env) : Prop :=
  ∀ name ∈ names, Option.Rel Binding.Alike (r.lookup? name) (r'.lookup? name)

/-- Stores with as many functions and cells, and with alike values in the cells. -/
structure Store.Alike (σ τ : Store) : Prop where
  nextId : σ.nextId = τ.nextId
  testedIdentity : σ.testedIdentity = τ.testedIdentity
  size : σ.cells.size = τ.cells.size
  memo : ∀ cell, Option.Rel Value.Alike (σ.memo? cell) (τ.memo? cell)

/-! ### Reflexivity -/

mutual

theorem Value.alike_self : ∀ v : Value, v.Alike v
  | .unit => .unit
  | .int n => .int n
  | .bool b => .bool b
  | .str s => .str s
  | .list vs => .list (Value.alike_selfAll vs)
  | .dict ps => .dict (Value.alike_selfPairs ps).1 (Value.alike_selfPairs ps).2
  | .closure i self params body r => .closure i self params body fun name _ => Env.lookup?_self r name
  | .primitive f vs => .primitive f (Value.alike_selfAll vs)

theorem Value.alike_selfAll : ∀ vs : List Value, List.Forall₂ Value.Alike vs vs
  | [] => .nil
  | v :: vs => .cons (Value.alike_self v) (Value.alike_selfAll vs)

theorem Value.alike_selfPairs : ∀ ps : List (Value × Value),
    List.Forall₂ Value.Alike (ps.map (·.1)) (ps.map (·.1)) ∧ List.Forall₂ Value.Alike (ps.map (·.2)) (ps.map (·.2))
  | [] => ⟨.nil, .nil⟩
  | (k, v) :: ps =>
    ⟨.cons (Value.alike_self k) (Value.alike_selfPairs ps).1, .cons (Value.alike_self v) (Value.alike_selfPairs ps).2⟩

theorem Binding.alike_self : ∀ b : Binding, b.Alike b
  | .value v => .value (Value.alike_self v)
  | .thunk cell e r => .thunk cell e fun name _ => Env.lookup?_self r name

theorem Env.lookup?_self : ∀ (r : List (String × Binding)) (name : String),
    Option.Rel Binding.Alike (Env.lookup? r name) (Env.lookup? r name)
  | [], name => by
    rw [show Env.lookup? [] name = none by simp [Env.lookup?]]
    exact .none
  | (bound, b) :: r, name => by
    rw [show Env.lookup? ((bound, b) :: r) name = _ from Env.lookup?_extend r bound name b]
    split
    · exact .some (Binding.alike_self b)
    · exact Env.lookup?_self r name

end

theorem Env.AlikeOn.of_eq {names : List String} {r r' : Env} (h : ∀ name ∈ names, r.lookup? name = r'.lookup? name) :
    Env.AlikeOn names r r' := by
  intro name hname
  rw [h name hname]
  exact Env.lookup?_self r' name

theorem Store.Alike.refl (store : Store) : store.Alike store where
  nextId := rfl
  testedIdentity := rfl
  size := rfl
  memo cell := by
    cases store.memo? cell with
    | none => exact .none
    | some v => exact .some v.alike_self

end Alike

/-! ## The lockstep -/

section Lockstep

theorem Value.alike_iff (v v' : Value) :
    v.Alike v' ↔ Value.InStep Value.Alike Env.AlikeOn .any (fun _ _ => True) v v' := by
  constructor
  · intro h
    cases h with
    | unit => exact .unit
    | int n => exact .int n
    | bool b => exact .bool b
    | str s => exact .str s
    | list hvs => exact .list hvs
    | dict hks hvs => exact .dict (forall₂_pairs_iff.2 ⟨hks, hvs⟩) trivial
    | closure i self params body hr => exact .closure i self params body hr
    | primitive f hvs => exact .primitive f hvs trivial
  · intro h
    cases h with
    | unit => exact .unit
    | int n => exact .int n
    | bool b => exact .bool b
    | str s => exact .str s
    | list hvs => exact .list hvs
    | dict hps => exact .dict (forall₂_pairs_iff.1 hps).1 (forall₂_pairs_iff.1 hps).2
    | closure i self params body hr => exact .closure i self params body hr
    | primitive f hvs => exact .primitive f hvs

theorem Binding.alike_eq : Binding.Alike = Binding.InStep Value.Alike Env.AlikeOn fun _ => True := by
  funext b b'
  refine propext ⟨fun h => ?_, fun h => ?_⟩
  · cases h with
    | value hv => exact .value hv
    | thunk cell e hr => exact .thunk trivial hr
  · cases h with
    | value hv => exact .value hv
    | thunk _ hr => exact .thunk _ _ hr

theorem Env.AlikeOn.extend {names : List String} {r r' : Env} {b b' : Binding} (name : String)
    (hr : Env.AlikeOn (stillFree [name] names) r r') (hb : b.Alike b') :
    Env.AlikeOn names (r.extend name b) (r'.extend name b') := by
  intro other hother
  rw [Env.lookup?_extend, Env.lookup?_extend]
  split
  · exact .some hb
  · next hne => exact hr other (mem_stillFree_of_not hother hne)

theorem Store.Alike.fill {σ τ : Store} {v v' : Value} (h : σ.Alike τ) (cell : Nat) (hv : v.Alike v') :
    { σ with cells := σ.cells.set! cell (some v) }.Alike { τ with cells := τ.cells.set! cell (some v') } where
  nextId := h.nextId
  testedIdentity := h.testedIdentity
  size := by simpa using h.size
  memo other := by
    rw [Store.memo?_set, Store.memo?_set, h.size]
    split
    · exact .some hv
    · exact h.memo other

/-- Two runs of one expression in environments that bind its free variables alike. -/
def alike : Lockstep Unit where
  value _ := Value.Alike
  env _ := Env.AlikeOn
  cell _ _ := True
  store _ := Store.Alike
  allows _ := True
  keys := .any
  awaits _ _ := True
  value_iff _ := Value.alike_iff
  value_mono _ h := h
  env_mono _ h := h
  cell_mono _ h := h
  env_subset hsub h name hname := h name (hsub hname)
  env_bind name hr hv := hr.extend name (.value hv)
  env_thunk {_ _ _ _ captured captured' _ _} name hr _ hfree := by
    refine hr.extend name (.thunk _ _ fun x hx => ?_)
    by_cases hempty : x = ""
    · rw [hempty, show captured.lookup? "" = none from rfl, show captured'.lookup? "" = none from rfl]
      exact .none
    · exact hfree x (Expr.mem_freeAs hx hempty)
  lookup h hname := ⟨by rw [← Binding.alike_eq]; exact h _ hname, fun _ => trivial⟩
  allows_of _ := trivial
  awaits_of_lt _ := trivial
  fresh h := ⟨h.nextId, congrArg (· + 1) h.nextId, h.testedIdentity, h.size, h.memo⟩
  note tested h := ⟨h.nextId, congrArg (· || tested) h.testedIdentity, h.size, h.memo⟩
  alloc h := by
    refine ⟨h.size, (), le_rfl, trivial, h.nextId, h.testedIdentity, by simpa using h.size, fun cell => ?_⟩
    rw [Store.memo?_push, Store.memo?_push]
    exact h.memo cell
  memo h _ := h.memo _
  fill h _ hv := h.fill _ hv

theorem interprets_alike (config : Config) (n : Nat) :
    alike.Interprets (interpreter config n) (interpreter config n) := by
  induction n with
  | zero => exact .zero config
  | succ n ih => exact ih.next config

end Lockstep

/-! ## Noninterference -/

section Main

variable {v v' : Value}

/-- Values that are alike are equal, because functions are compared by their identity. -/
theorem Value.Alike.beq (h : v.Alike v') : (v == v') = true := by
  rw [Congruence.beq_eq (S := alike.congruence ()) (a := v) (b := v) v.alike_self h (alike.settles () _)]
  exact Value.beq_refl v

/-- **Only free variables matter.** In environments with the same bindings of them, both evaluations go on forever, or
both fail with the same cause and backtrace, or both end in values that are alike. -/
theorem only_free_variables_matter (config : Config) {e : Expr} {r r' : Env} (stack : CallStack) (store : Store)
    (h : ∀ name ∈ e.free, r.lookup? name = r'.lookup? name) :
    (∀ outcome, ¬Evaluates config e r stack store outcome ∧ ¬Evaluates config e r' stack store outcome) ∨
      (∃ failure σ τ, Evaluates config e r stack store (.failed failure σ) ∧
        Evaluates config e r' stack store (.failed failure τ) ∧ σ.Alike τ) ∨
      ∃ v v' σ τ, Evaluates config e r stack store (.done v σ) ∧ Evaluates config e r' stack store (.done v' τ) ∧
        σ.Alike τ ∧ v.Alike v' ∧ v.typeName = v'.typeName ∧ v.display = v'.display ∧ (v == v') = true := by
  have hmeets : ∀ n, alike.Meets () alike.value (eval config n e r stack store) (eval config n e r' stack store) :=
    fun n => (interprets_alike config n).eval (.of_eq h) store store (.refl store)
  by_cases hends : ∃ n, eval config n e r stack store ≠ .outOfFuel
  · obtain ⟨n, hn⟩ := hends
    have h := hmeets n
    generalize hr : eval config n e r stack store = outcome at h hn
    generalize hr' : eval config n e r' stack store = outcome' at h
    cases h with
    | outOfFuel => exact absurd rfl hn
    | failed _ _ hstore => exact Or.inr (Or.inl ⟨_, _, _, ⟨nofun, n, hr⟩, ⟨nofun, n, hr'⟩, hstore⟩)
    | done _ hv hstore =>
      have htype := Congruence.typeName_eq (S := alike.congruence ()) hv
      have htext := Congruence.display_eq (S := alike.congruence ()) hv
      exact Or.inr (Or.inr ⟨_, _, _, _, ⟨nofun, n, hr⟩, ⟨nofun, n, hr'⟩, hstore, hv, htype, htext, hv.beq⟩)
  · refine Or.inl fun outcome => ⟨?_, ?_⟩
    · rintro ⟨hne, n, rfl⟩
      exact hends ⟨n, hne⟩
    · rintro ⟨hne, n, rfl⟩
      refine hends ⟨n, fun hr => hne ?_⟩
      have h := hmeets n
      rw [hr] at h
      generalize eval config n e r' stack store = outcome' at h
      cases h
      rfl

/-- A function over a lazy binding of `x`, in environments that differ in what they bind its parameter `z` to. -/
theorem only_free_variables_matter_function :
    let e : Expr := .letIn (.lazy [("y", .symbol "x")]) (.lambda ["z"] (.operator .add (.symbol "y") (.symbol "z")))
    let r : Env := [("x", .value (.int 1)), ("z", .value (.int 2))]
    let r' : Env := [("z", .value (.str "")), ("x", .value (.int 1))]
    ∃ v v' σ τ, Evaluates ⟨none, .byNeed⟩ e r CallStack.empty {} (.done v σ) ∧
      Evaluates ⟨none, .byNeed⟩ e r' CallStack.empty {} (.done v' τ) ∧ v.Alike v' := by
  intro e r r'
  have hfree : ∀ name ∈ e.free, r.lookup? name = r'.lookup? name := by
    intro name hname
    rw [show e.free = ["x"] by decide, List.mem_singleton] at hname
    rw [hname]
    rfl
  have hends : Evaluates ⟨none, .byNeed⟩ e r CallStack.empty {} (eval ⟨none, .byNeed⟩ 2 e r CallStack.empty {}) :=
    ⟨nofun, 2, rfl⟩
  rcases only_free_variables_matter ⟨none, .byNeed⟩ CallStack.empty {} hfree with h | ⟨_, _, _, h, _⟩ | h
  · exact absurd hends (h _).1
  · cases hends.unique h
  · obtain ⟨v, v', σ, τ, hv, hv', _, halike, _⟩ := h
    exact ⟨v, v', σ, τ, hv, hv', halike⟩

end Main

end Treewalk
