import Treewalk.Proofs.DepthLimit
import Treewalk.Proofs.Erasure
import Treewalk.Proofs.SimulationStep

/-!
# Evaluators on linked stores

The values of two runs of one expression have the same erasure, even if the runs follow different strategies. What has
to be known of the memo cells is that a filled cell holds what evaluation by name yields for its thunk (`Store.Keeps`).

`linked` is the simulation between evaluators of any two strategies. Its worlds list the thunks behind the memo cells of
either side. Declarations keep stores linked (`simulates_declare`), so the evaluators simulate each other as soon as
they do so where thunks are forced (`interprets_linked`).
-/

namespace Treewalk

open Run Filter

/-! ## Memo cells -/

section Cells

/-- By name and without a limit, `e` has a value like `v` in every environment like `env`. -/
def Yields (e : Expr) (env : Env) (v : Value) : Prop :=
  ∃ v' store, Evaluates ⟨none, .byName⟩ e (Env.erase env) CallStack.empty {} (.done v' store) ∧
    store.testedIdentity = false ∧ v'.erase = v.erase

variable {e : Expr} {env env' : Env} {v v' : Value}

theorem Yields.congr (henv : Env.erase env = Env.erase env') (hv : v.erase = v'.erase) (h : Yields e env v) :
    Yields e env' v' := by
  obtain ⟨u, store, heval, huntested, hu⟩ := h
  exact ⟨u, store, henv ▸ heval, huntested, hu.trans hv⟩

theorem Yields.unique (h : Yields e env v) (h' : Yields e env v') : v.erase = v'.erase := by
  obtain ⟨u, store, heval, _, hu⟩ := h
  obtain ⟨u', store', heval', _, hu'⟩ := h'
  cases heval.unique heval'
  exact hu.symm.trans hu'

/-- A store in which no test of identity has been noted and whose memo cells belong to the thunks of `w`. By need, each
cell belongs to one thunk and, if it is filled, holds what the thunk yields. -/
structure Store.Keeps (strategy : Strategy) (w : Cells) (store : Store) : Prop where
  untested : store.testedIdentity = false
  allocated : strategy = .byNeed → ∀ t ∈ w, t.1 < store.cells.size
  single : strategy = .byNeed → ∀ t ∈ w, ∀ u ∈ w, t.1 = u.1 → t = u
  filled : strategy = .byNeed → ∀ t ∈ w, ∀ v, store.memo? t.1 = some v → FitIn w v.thunks ∧ Yields t.2.1 t.2.2 v

variable {strategy : Strategy} {w w' : Cells} {store : Store}

/-- By name, nothing is asked of the cells. -/
theorem Store.Keeps.of_byName (h : store.testedIdentity = false) : store.Keeps .byName w :=
  ⟨h, nofun, nofun, nofun⟩

theorem Store.Keeps.newCell (h : store.Keeps strategy w) (e : Expr) (env : Env) :
    { store with cells := store.cells.push none }.Keeps strategy
      (insert (store.cells.size, e, Env.erase env) w) where
  untested := h.untested
  allocated hs t ht := by
    rw [Array.size_push]
    rcases ht with rfl | ht
    · exact Nat.lt_succ_self _
    · exact Nat.lt_succ_of_lt (h.allocated hs t ht)
  single hs t ht u hu htu := by
    rcases ht with rfl | ht <;> rcases hu with rfl | hu
    · rfl
    · exact absurd htu (h.allocated hs u hu).ne'
    · exact absurd htu (h.allocated hs t ht).ne
    · exact h.single hs t ht u hu htu
  filled hs t ht v hv := by
    rcases ht with rfl | ht
    · simp [Store.memo?] at hv
    · rw [Store.memo?_push] at hv
      obtain ⟨hfit, hyields⟩ := h.filled hs t ht v hv
      exact ⟨hfit.mono (Set.subset_insert _ _), hyields⟩

theorem Store.Keeps.fill (h : store.Keeps strategy w) {t : Nat × Expr × Env} (ht : t ∈ w)
    (hfit : FitIn w v.thunks) (hyields : Yields t.2.1 t.2.2 v) :
    { store with cells := store.cells.set! t.1 (some v) }.Keeps strategy w where
  untested := h.untested
  allocated hs u hu := by
    rw [Array.set!_eq_setIfInBounds, Array.size_setIfInBounds]
    exact h.allocated hs u hu
  single := h.single
  filled hs u hu v' hv' := by
    rw [Store.memo?_set] at hv'
    split at hv'
    · next heq =>
      cases hv'
      rw [← h.single hs t ht u hu heq.1]
      exact ⟨hfit, hyields⟩
    · exact h.filled hs u hu v' hv'

/-- Keeping what a thunk yields in its cell gives a value like it, also where the cell has been filled before. -/
theorem Store.Keeps.memoize (h : store.Keeps .byNeed w) {t : Nat × Expr × Env} (ht : t ∈ w)
    (hfit : FitIn w v.thunks) (hyields : Yields t.2.1 t.2.2 v) :
    ∃ held store', Run.memoize t.1 v store = .done held store' ∧ held.erase = v.erase ∧ FitIn w held.thunks ∧
      store'.Keeps .byNeed w := by
  unfold Run.memoize
  cases hmemo : store.memo? t.1 with
  | some held =>
    obtain ⟨hfit', hyields'⟩ := h.filled rfl t ht held hmemo
    exact ⟨held, store, rfl, hyields'.unique hyields, hfit', h⟩
  | none => exact ⟨v, _, rfl, rfl, hfit, h.fill ht hfit hyields⟩

end Cells

/-! ## The simulation -/

section Linked

/-- How the frames and failures of an evaluator under `limit` are related to those of another one. -/
structure Framing (limit : Option Nat) where
  /-- The other limit. -/
  limit' : Option Nat
  stack : CallStack → CallStack → Prop
  failure : Failure → Failure → Prop
  failure_refl : ∀ f, failure f f
  frame : ∀ {s s' : CallStack} (e : Expr), stack s s' →
    (∃ m, limit = some m ∧ s.pushWithin limit e = .error (.recursionLimit m)) ∨
      s.pushWithin limit e = .ok (s.push e) ∧ s'.pushWithin limit' e = .ok (s'.push e) ∧ stack (s.push e) (s'.push e)
  attach : ∀ {s s' : CallStack} {f f' : Failure}, stack s s' → failure f f' → failure (s.attach f) (s'.attach f')

/-- The same limit on the same stack, with the same failures. -/
def Framing.same (limit : Option Nat) : Framing limit where
  limit' := limit
  stack := Eq
  failure := Eq
  failure_refl _ := rfl
  frame := by
    rintro s _ e rfl
    rcases s.pushWithin_cases limit e with h | h
    · exact Or.inl h
    · exact Or.inr ⟨h, h, rfl⟩
  attach hs hf := congrArg₂ CallStack.attach hs hf

/-- No limit on an unrelated stack, with failures of the same cause. -/
def Framing.apart (limit : Option Nat) : Framing limit where
  limit' := none
  stack _ _ := True
  failure := Failure.SameCause
  failure_refl := .refl
  frame := by
    intro s s' e _
    rcases s.pushWithin_cases limit e with h | h
    · exact Or.inl h
    · exact Or.inr ⟨h, rfl, trivial⟩
  attach _ h := h.attach _ _

/-- Items that are related and have a property each. -/
theorem forall₂_and_iff {α β : Type} {R : α → β → Prop} {p : α → Prop} {q : β → Prop} {as : List α} {bs : List β} :
    List.Forall₂ (fun a b => R a b ∧ p a ∧ q b) as bs ↔
      List.Forall₂ R as bs ∧ (∀ a ∈ as, p a) ∧ ∀ b ∈ bs, q b := by
  constructor
  · intro h
    induction h with
    | nil => exact ⟨.nil, fun _ => nofun, fun _ => nofun⟩
    | cons hab _ ih =>
      exact ⟨.cons hab.1 ih.1, List.forall_mem_cons.2 ⟨hab.2.1, ih.2.1⟩, List.forall_mem_cons.2 ⟨hab.2.2, ih.2.2⟩⟩
  · rintro ⟨h, hp, hq⟩
    induction h with
    | nil => exact .nil
    | cons hab _ ih =>
      obtain ⟨hpa, hp⟩ := List.forall_mem_cons.1 hp
      obtain ⟨hqb, hq⟩ := List.forall_mem_cons.1 hq
      exact .cons ⟨hab, hpa, hqb⟩ (ih hp hq)

/-- Values of one structure whose thunks belong to the memo cells of either side. -/
def Value.Linked (w : Cells × Cells) (v v' : Value) : Prop :=
  v.erase = v'.erase ∧ FitIn w.1 v.thunks ∧ FitIn w.2 v'.thunks

/-- Environments of one structure whose thunks belong to the memo cells of either side. -/
def Env.Linked (w : Cells × Cells) (r r' : Env) : Prop :=
  Env.erase r = Env.erase r' ∧ FitIn w.1 (Env.thunks r) ∧ FitIn w.2 (Env.thunks r')

variable {w w' : Cells × Cells}

theorem Value.linked_iff (w : Cells × Cells) (v v' : Value) :
    v.Linked w v' ↔ Value.Layer (Value.Linked w)
      (fun f f' => True ∧ f.2.1 = f'.2.1 ∧ Env.Linked w f.2.2 f'.2.2) v v' := by
  constructor
  · rintro ⟨herase, hfit, hfit'⟩
    cases Value.erase_eq_iff.1 herase with
    | unit => exact .unit
    | int n => exact .int n
    | bool b => exact .bool b
    | str s => exact .str s
    | list hvs => exact .list (forall₂_and_iff.2 ⟨hvs, fitIn_thunksAll.1 hfit, fitIn_thunksAll.1 hfit'⟩)
    | dict hps =>
      refine .dict ((forall₂_and_iff.2 ⟨hps, fitIn_thunksPairs.1 hfit, fitIn_thunksPairs.1 hfit'⟩).imp ?_)
      exact fun _ _ h => ⟨⟨h.1.1, h.2.1.1, h.2.2.1⟩, ⟨h.1.2, h.2.1.2, h.2.2.2⟩⟩
    | closure self params h => exact .closure self params ⟨trivial, h.1, h.2, hfit, hfit'⟩
    | primitive f hvs =>
      exact .primitive f (forall₂_and_iff.2 ⟨hvs, fitIn_thunksAll.1 hfit, fitIn_thunksAll.1 hfit'⟩)
  · intro h
    cases h with
    | unit | int | bool | str => exact ⟨rfl, fun _ => nofun, fun _ => nofun⟩
    | list hvs =>
      obtain ⟨hvs, hfit, hfit'⟩ := forall₂_and_iff.1 hvs
      exact ⟨Value.erase_eq_iff.2 (.list hvs), fitIn_thunksAll.2 hfit, fitIn_thunksAll.2 hfit'⟩
    | dict hps =>
      have hps' := hps.imp (S := fun p p' => (p.1.erase = p'.1.erase ∧ p.2.erase = p'.2.erase) ∧
        (FitIn w.1 p.1.thunks ∧ FitIn w.1 p.2.thunks) ∧ (FitIn w.2 p'.1.thunks ∧ FitIn w.2 p'.2.thunks))
        fun _ _ h => ⟨⟨h.1.1, h.2.1⟩, ⟨h.1.2.1, h.2.2.1⟩, ⟨h.1.2.2, h.2.2.2⟩⟩
      obtain ⟨hps, hfit, hfit'⟩ := forall₂_and_iff.1 hps'
      exact ⟨Value.erase_eq_iff.2 (.dict hps), fitIn_thunksPairs.2 hfit, fitIn_thunksPairs.2 hfit'⟩
    | closure self params h =>
      exact ⟨Value.erase_eq_iff.2 (.closure self params ⟨h.2.1, h.2.2.1⟩), h.2.2.2.1, h.2.2.2.2⟩
    | primitive f hvs =>
      obtain ⟨hvs, hfit, hfit'⟩ := forall₂_and_iff.1 hvs
      exact ⟨Value.erase_eq_iff.2 (.primitive f hvs), fitIn_thunksAll.2 hfit, fitIn_thunksAll.2 hfit'⟩

theorem Env.Linked.mono {r r' : Env} (hw : w ≤ w') (h : Env.Linked w r r') : Env.Linked w' r r' :=
  ⟨h.1, h.2.1.mono hw.1, h.2.2.mono hw.2⟩

theorem Env.Linked.extend {r r' : Env} {b b' : Binding} (name : String) (hr : Env.Linked w r r')
    (hb : b.erase = b'.erase) (hfit : FitIn w.1 b.thunks) (hfit' : FitIn w.2 b'.thunks) :
    Env.Linked w (r.extend name b) (r'.extend name b') := by
  refine ⟨?_, fitIn_append.2 ⟨hfit, hr.2.1⟩, fitIn_append.2 ⟨hfit', hr.2.2⟩⟩
  show (name, b.erase) :: Env.erase r = (name, b'.erase) :: Env.erase r'
  rw [hb, hr.1]

/-- The evaluators of two strategies on the same expressions. -/
def linked {limit : Option Nat} (F : Framing limit) (strategy strategy' : Strategy) :
    Simulation (Cells × Cells) where
  left := ⟨limit, strategy⟩
  right := ⟨F.limit', strategy'⟩
  expr := Eq
  decl := Eq
  ident _ _ _ := True
  value := Value.Linked
  env := Env.Linked
  store w σ τ := σ.Keeps strategy w.1 ∧ τ.Keeps strategy' w.2
  stack := F.stack
  failure := F.failure
  pardons f := ∃ m, limit = some m ∧ f.Exhausts m
  faithful := False
  expr_layer := Expr.layer_of_eq
  value_iff := Value.linked_iff
  ident_faithful := nofun
  value_mono hw h := ⟨h.1, h.2.1.mono hw.1, h.2.2.mono hw.2⟩
  env_mono := Env.Linked.mono
  env_bind name hr hv := hr.extend name (congrArg Binding.value hv.1) hv.2.1 hv.2.2
  fresh {w} _ _ h := ⟨w, le_rfl, trivial, ⟨h.1.untested, h.1.allocated, h.1.single, h.1.filled⟩,
    ⟨h.2.untested, h.2.allocated, h.2.single, h.2.filled⟩⟩
  note := nofun
  failure_refl := F.failure_refl
  frame := by
    rintro s s' e _ hs rfl
    rcases F.frame e hs with ⟨m, hm, hp⟩ | h
    · exact Or.inl ⟨_, hp, Or.inl ⟨m, hm, rfl⟩⟩
    · exact Or.inr h
  attach := F.attach
  pardons_attach s f := by
    rintro ⟨m, hm, hf⟩
    exact ⟨m, hm, (s.attach_cause f).trans hf⟩

/-- What linked environments bind a name to. -/
inductive Binding.Linked (w : Cells × Cells) : Binding → Binding → Prop
  | value {v v' : Value} : v.Linked w v' → Linked w (.value v) (.value v')
  | thunk {cell cell' : Nat} {e : Expr} {r r' : Env} : Env.Linked w r r' → (cell, e, Env.erase r) ∈ w.1 →
      (cell', e, Env.erase r') ∈ w.2 → Linked w (.thunk cell e r) (.thunk cell' e r')

theorem Env.Linked.lookup {r r' : Env} (h : Env.Linked w r r') (name : String) :
    Option.Rel (Binding.Linked w) (r.lookup? name) (r'.lookup? name) := by
  have herase : (r.lookup? name).map Binding.erase = (r'.lookup? name).map Binding.erase := by
    rw [← Env.lookup?_erase, ← Env.lookup?_erase, h.1]
  have hfit : ∀ b, r.lookup? name = some b → FitIn w.1 b.thunks := fun b hb => fitIn_lookup hb h.2.1
  have hfit' : ∀ b, r'.lookup? name = some b → FitIn w.2 b.thunks := fun b hb => fitIn_lookup hb h.2.2
  generalize r.lookup? name = found at herase hfit
  generalize r'.lookup? name = found' at herase hfit'
  cases found with
  | none =>
    cases found' with
    | none => exact .none
    | some b' => cases herase
  | some b =>
    cases found' with
    | none => cases herase
    | some b' =>
      have hb := Option.some.inj herase
      have hfit := hfit b rfl
      have hfit' := hfit' b' rfl
      refine .some ?_
      cases b with
      | value v =>
        cases b' with
        | value v' => exact .value ⟨Binding.value.inj hb, hfit, hfit'⟩
        | thunk => cases hb
      | thunk cell e r =>
        cases b' with
        | value v' => cases hb
        | thunk cell' e' r' =>
          obtain ⟨_, rfl, hr⟩ := Binding.thunk.inj hb
          obtain ⟨hcell, hfit⟩ := List.forall_mem_cons.1 hfit
          obtain ⟨hcell', hfit'⟩ := List.forall_mem_cons.1 hfit'
          exact .thunk ⟨hr, hfit, hfit'⟩ hcell hcell'

/-! ### Declarations -/

section Declarations

variable {limit : Option Nat} {F : Framing limit} {strategy strategy' : Strategy} {r r' : Env}

/-- A name is bound to a thunk with a new cell on either side. -/
theorem simulates_newThunk {extended extended' : Env} (name : String) (e : Expr) (hr : Env.Linked w r r')
    (hext : Env.Linked w extended extended') :
    (linked F strategy strategy').Simulates w Env.Linked
      (do return extended.extend name (.thunk (← newCell) e r))
      fun _ => do return extended'.extend name (.thunk (← newCell) e r') := by
  intro σ τ hstore
  have hw : w ≤ (insert (σ.cells.size, e, Env.erase r) w.1, insert (τ.cells.size, e, Env.erase r') w.2) :=
    ⟨Set.subset_insert _ _, Set.subset_insert _ _⟩
  have hr := hr.mono hw
  refine .done hw ?_ ⟨hstore.1.newCell e r, hstore.2.newCell e r'⟩ (Eventually.of_forall fun _ => rfl)
  refine (hext.mono hw).extend name ?_ ?_ ?_
  · simp only [Binding.erase, hr.1]
  · exact List.forall_mem_cons.2 ⟨Set.mem_insert _ _, hr.2.1⟩
  · exact List.forall_mem_cons.2 ⟨Set.mem_insert _ _, hr.2.2⟩

theorem simulates_declare {I : Interpreter} {J : Nat → Interpreter} {s s' : CallStack} [I.Remembers]
    (hI : (linked F strategy strategy').Interprets I J) (d : Decl) (hr : Env.Linked w r r') (hs : F.stack s s') :
    (linked F strategy strategy').Simulates w Env.Linked (I.declare d r s) fun k => (J k).declare d r' s' :=
  Simulation.declare (fun _ _ _ _ _ e _ name he hr hext => he ▸ simulates_newThunk name e hr hext)
    (fun _ _ _ he => he ▸ rfl) hI (.refl d) hr hs

end Declarations

/-- Linked evaluators simulate each other if they do so where thunks are forced. -/
theorem interprets_linked {limit : Option Nat} (F : Framing limit) (strategy strategy' : Strategy)
    (hforce : ∀ n, (linked F strategy strategy').Interprets (interpreter ⟨limit, strategy⟩ n)
        (interpreter ⟨F.limit', strategy'⟩) →
      ∀ {w : Cells × Cells} {cell cell' : Nat} {e : Expr} {r r' : Env}
        {s s' : CallStack}, Env.Linked w r r' → (cell, e, Env.erase r) ∈ w.1 → (cell', e, Env.erase r') ∈ w.2 →
      F.stack s s' → (linked F strategy strategy').Simulates w Value.Linked
        ((interpreter ⟨limit, strategy⟩ n).force strategy cell e r s)
        fun k => (interpreter ⟨F.limit', strategy'⟩ k).force strategy' cell' e r' s') :
    ∀ n, (linked F strategy strategy').Interprets (interpreter ⟨limit, strategy⟩ n)
      (interpreter ⟨F.limit', strategy'⟩) := by
  refine Simulation.interprets (S := linked F strategy strategy') fun n hI => ⟨?_, ?_, nofun⟩
  · intro w r r' s s' name hr hs
    unfold Interpreter.lookup
    have hbinding := hr.lookup name
    generalize r.lookup? name = found at hbinding
    generalize r'.lookup? name = found' at hbinding
    cases hbinding with
    | none => exact Simulation.fail _
    | some hb =>
      cases hb with
      | value hv => exact Simulation.pure hv
      | thunk hr hcell hcell' => exact hforce n hI hr hcell hcell' hs
  · rintro w d _ r r' s s' rfl hr hs
    exact simulates_declare hI d hr hs

end Linked

end Treewalk
