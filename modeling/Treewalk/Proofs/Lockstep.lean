import Treewalk.Proofs.FreeVariables
import Treewalk.Proofs.Simulation

/-!
# Runs in lockstep

Two runs of one expression on one stack keep step if they end in the same way: with equal failures, or with related
results. A `Lockstep` says what they relate. Functions have the same identity, parameters and body, and their
environments are related as far as the free variables of the function go; what else an environment binds is left open.
Worlds grow as in a simulation. Between two different runs this says that only free variables matter; between a run and
itself, that it keeps an invariant.

* `Lockstep.Keeps`: two runs keep step from all related stores.
* Binding and loops keep step (`Lockstep.bind`, `Lockstep.mapM`, `Lockstep.foldlM`, `Lockstep.filterM`), frames do
  (`Lockstep.inFrame`), and so do the operations on values (`Lockstep.unary`, `Lockstep.binary`, `Lockstep.insert`).
-/

namespace Treewalk

open Run

/-! ## What is related -/

section Definitions

/-- One layer of a lockstep between values: values of one form, whose parts are related by `V`, and whose environments
are related by `E` as far as some names go. -/
inductive Value.InStep (V : Value → Value → Prop) (E : List String → Env → Env → Prop) (keys : KeyRule)
    (awaits : Builtin → Nat → Prop) : Value → Value → Prop
  | unit : InStep V E keys awaits .unit .unit
  | int (n : Int64) : InStep V E keys awaits (.int n) (.int n)
  | bool (b : Bool) : InStep V E keys awaits (.bool b) (.bool b)
  | str (s : String) : InStep V E keys awaits (.str s) (.str s)
  | list {vs vs' : List Value} : List.Forall₂ V vs vs' → InStep V E keys awaits (.list vs) (.list vs')
  | dict {ps ps' : Dict} : List.Forall₂ (fun p p' => V p.1 p'.1 ∧ V p.2 p'.2) ps ps' →
      keys.holds (ps.map (·.1)) → InStep V E keys awaits (.dict ps) (.dict ps')
  | closure {r r' : Env} (i : Nat) (self : Option String) (params : List String) (body : Expr) :
      E (body.freeUnder self params) r r' →
      InStep V E keys awaits (.closure i self params body r) (.closure i self params body r')
  | primitive {vs vs' : List Value} (f : Builtin) : List.Forall₂ V vs vs' → awaits f vs.length →
      InStep V E keys awaits (.primitive f vs) (.primitive f vs')

/-- One layer of a lockstep between bindings: related values, or thunks of one expression in one of the cells. -/
inductive Binding.InStep (V : Value → Value → Prop) (E : List String → Env → Env → Prop) (cell : Nat → Prop) :
    Binding → Binding → Prop
  | value {v v' : Value} : V v v' → InStep V E cell (.value v) (.value v')
  | thunk {c : Nat} {e : Expr} {r r' : Env} : cell c → E e.free r r' → InStep V E cell (.thunk c e r) (.thunk c e r')

/-- What two runs of one expression relate, in worlds of the type `W`. -/
structure Lockstep (W : Type) [Preorder W] where
  value : W → Value → Value → Prop
  /-- Environments, as far as some names go. -/
  env : W → List String → Env → Env → Prop
  /-- The memo cells that thunks may have. -/
  cell : W → Nat → Prop
  store : W → Store → Store → Prop
  /-- The causes of failures. -/
  allows : Cause → Prop
  /-- What is asked of the keys of a dictionary. -/
  keys : KeyRule
  /-- What is asked of a builtin that has got a number of arguments. -/
  awaits : Builtin → Nat → Prop
  value_iff : ∀ (w : W) (v v' : Value), value w v v' ↔ Value.InStep (value w) (env w) keys awaits v v'
  value_mono : ∀ {w w' : W} {v v' : Value}, w ≤ w' → value w v v' → value w' v v'
  env_mono : ∀ {w w' : W} {names : List String} {r r' : Env}, w ≤ w' → env w names r r' → env w' names r r'
  cell_mono : ∀ {w w' : W} {c : Nat}, w ≤ w' → cell w c → cell w' c
  env_subset : ∀ {w : W} {names names' : List String} {r r' : Env}, names ⊆ names' → env w names' r r' →
    env w names r r'
  env_bind : ∀ {w : W} {names : List String} {r r' : Env} {v v' : Value} (name : String),
    env w (stillFree [name] names) r r' → value w v v' → env w names (r.bind name v) (r'.bind name v')
  env_thunk : ∀ {w : W} {names : List String} {r r' captured captured' : Env} {c : Nat} {e : Expr} (name : String),
    env w (stillFree [name] names) r r' → cell w c → env w (e.freeAs name) captured captured' →
    env w names (r.extend name (.thunk c e captured)) (r'.extend name (.thunk c e captured'))
  lookup : ∀ {w : W} {names : List String} {r r' : Env} {name : String}, env w names r r' → name ∈ names →
    Option.Rel (Binding.InStep (value w) (env w) (cell w)) (r.lookup? name) (r'.lookup? name) ∧
      (r.lookup? name = none → allows (.unboundVariable name))
  allows_of : ∀ {cause : Cause}, cause.category ≠ .unboundVariable → allows cause
  awaits_of_lt : ∀ {f : Builtin} {n : Nat}, n < f.arity → awaits f n
  fresh : ∀ {w : W} {σ τ : Store}, store w σ τ → σ.nextId = τ.nextId ∧
    store w { σ with nextId := σ.nextId + 1 } { τ with nextId := τ.nextId + 1 }
  note : ∀ {w : W} {σ τ : Store} (tested : Bool), store w σ τ →
    store w { σ with testedIdentity := σ.testedIdentity || tested }
      { τ with testedIdentity := τ.testedIdentity || tested }
  alloc : ∀ {w : W} {σ τ : Store}, store w σ τ → σ.cells.size = τ.cells.size ∧ ∃ w', w ≤ w' ∧
    cell w' σ.cells.size ∧
    store w' { σ with cells := σ.cells.push none } { τ with cells := τ.cells.push none }
  memo : ∀ {w : W} {σ τ : Store} {c : Nat}, store w σ τ → cell w c →
    Option.Rel (value w) (σ.memo? c) (τ.memo? c)
  fill : ∀ {w : W} {σ τ : Store} {c : Nat} {v v' : Value}, store w σ τ → cell w c → value w v v' →
    store w { σ with cells := σ.cells.set! c (some v) } { τ with cells := τ.cells.set! c (some v') }

namespace Lockstep

variable {W : Type} [Preorder W] (L : Lockstep W) {α α' β β' : Type}

/-- The congruence of values in a world. -/
def congruence (w : W) : Congruence where
  value := L.value w
  ident := Eq
  keys := L.keys
  layer {v v'} h := by
    cases (L.value_iff w v v').1 h with
    | unit => exact .unit
    | int n => exact .int n
    | bool b => exact .bool b
    | str s => exact .str s
    | list hvs => exact .list hvs
    | dict hps => exact .dict hps
    | closure i self params body => exact .closure self params rfl
    | primitive f hvs => exact .primitive f hvs
  keys_of_dict h := by
    cases (L.value_iff w _ _).1 h with
    | dict _ hkeys => exact hkeys
  int n := (L.value_iff w _ _).2 (.int n)
  bool b := (L.value_iff w _ _).2 (.bool b)
  str s := (L.value_iff w _ _).2 (.str s)
  list hvs := (L.value_iff w _ _).2 (.list hvs)
  dict hps hkeys := (L.value_iff w _ _).2 (.dict hps hkeys)

/-- Identities are equal, so every comparison is settled. -/
theorem settles (w : W) (byIdentity : Bool) : (L.congruence w).Settles byIdentity := by
  refine Or.inl ?_
  rintro _ _ _ _ rfl rfl
  rfl

/-- Outcomes of one kind, in a world that has grown from `w`. -/
inductive Meets (w : W) (R : W → α → α' → Prop) : Outcome α → Outcome α' → Prop
  | outOfFuel : Meets w R .outOfFuel .outOfFuel
  | done {w' : W} {a : α} {a' : α'} {σ τ : Store} : w ≤ w' → R w' a a' → L.store w' σ τ →
      Meets w R (.done a σ) (.done a' τ)
  | failed {w' : W} {failure : Failure} {σ τ : Store} : w ≤ w' → L.allows failure.cause → L.store w' σ τ →
      Meets w R (.failed failure σ) (.failed failure τ)

/-- Two runs keep step from all related stores. -/
def Keeps (w : W) (R : W → α → α' → Prop) (m : Run α) (m' : Run α') : Prop :=
  ∀ σ τ, L.store w σ τ → L.Meets w R (m σ) (m' τ)

variable {L} {w : W} {R : W → α → α' → Prop}

theorem Meets.mono {w' : W} {outcome : Outcome α} {outcome' : Outcome α'} (hw : w ≤ w')
    (h : L.Meets w' R outcome outcome') : L.Meets w R outcome outcome' := by
  cases h with
  | outOfFuel => exact .outOfFuel
  | done hw' ha hstore => exact .done (hw.trans hw') ha hstore
  | failed hw' hcause hstore => exact .failed (hw.trans hw') hcause hstore

theorem Keeps.imp {R' : W → α → α' → Prop} {m : Run α} {m' : Run α'} (h : L.Keeps w R m m')
    (hR : ∀ w' a a', R w' a a' → R' w' a a') : L.Keeps w R' m m' := by
  intro σ τ hstore
  have h := h σ τ hstore
  generalize m σ = outcome at h
  generalize m' τ = outcome' at h
  cases h with
  | outOfFuel => exact .outOfFuel
  | done hw ha hstore' => exact .done hw (hR _ _ _ ha) hstore'
  | failed hw hcause hstore' => exact .failed hw hcause hstore'

end Lockstep

end Definitions

/-! ## Runs that keep step -/

section Runs

namespace Lockstep

open Simulation (Grows)

variable {W : Type} [Preorder W] {L : Lockstep W} {α α' β β' : Type} {w : W} {R : W → α → α' → Prop}
  {R' : W → β → β' → Prop}

theorem pure {a : α} {a' : α'} (h : R w a a') : L.Keeps w R (Pure.pure a) (Pure.pure a') :=
  fun _ _ hstore => .done le_rfl h hstore

theorem fail {cause : Cause} (h : cause.category ≠ .unboundVariable := by simp [Cause.category]) :
    L.Keeps w R (Run.fail cause) (Run.fail cause) :=
  fun _ _ hstore => .failed le_rfl (L.allows_of h) hstore

theorem bind {m : Run α} {m' : Run α'} {f : α → Run β} {f' : α' → Run β'} (hm : L.Keeps w R m m')
    (hf : ∀ w', w ≤ w' → ∀ a a', R w' a a' → L.Keeps w' R' (f a) (f' a')) :
    L.Keeps w R' (m >>= f) (m' >>= f') := by
  intro σ τ hstore
  have h := hm σ τ hstore
  simp only [bind_apply]
  generalize m σ = outcome at h
  generalize m' τ = outcome' at h
  cases h with
  | outOfFuel => exact .outOfFuel
  | failed hw hcause hstore' => exact .failed hw hcause hstore'
  | @done w' a a' σ' τ' hw ha hstore' => exact (hf w' hw a a' ha σ' τ' hstore').mono hw

/-- A run whose result is handed on. -/
theorem map {m : Run α} {m' : Run α'} {g : α → β} {g' : α' → β'} (hm : L.Keeps w R m m')
    (hg : ∀ w' a a', R w' a a' → R' w' (g a) (g' a')) : L.Keeps w R' (g <$> m) (g' <$> m') := by
  simp only [map_eq_pure_bind]
  exact bind hm fun w' _ a a' h => pure (hg w' a a' h)

/-- Opening a frame. -/
theorem inFrame {limit : Option Nat} {e : Expr} {s : CallStack} {body : CallStack → Run α}
    {body' : CallStack → Run α'} (h : L.Keeps w R (body (s.push e)) (body' (s.push e))) :
    L.Keeps w R (inFrame limit e s body) (inFrame limit e s body') := by
  rcases s.pushWithin_cases limit e with ⟨m, _, hp⟩ | hp
  · simp only [Run.inFrame, hp]
    exact fail
  · intro σ τ hstore
    have h := h σ τ hstore
    simp only [Run.inFrame, hp]
    generalize body (s.push e) σ = outcome at h
    generalize body' (s.push e) τ = outcome' at h
    cases h with
    | outOfFuel => exact .outOfFuel
    | done hw ha hstore' => exact .done hw ha hstore'
    | failed hw hcause hstore' =>
      refine .failed hw ?_ hstore'
      rw [CallStack.attach_cause]
      exact hcause

/-! ### Loops -/

section Loops

variable {Q : W → α → α' → Prop}

/-- A loop over a list, whose results are also related to the items they come from. -/
theorem mapM {T : α → β → Prop} {f : α → Run β} {f' : α' → Run β'} {as : List α} {as' : List α'} (hQ : Grows Q)
    (hR : Grows R') (has : List.Forall₂ (Q w) as as')
    (hf : ∀ w', w ≤ w' → ∀ a a', Q w' a a' → L.Keeps w' (fun w' b b' => R' w' b b' ∧ T a b) (f a) (f' a')) :
    L.Keeps w (fun w' bs bs' => List.Forall₂ (R' w') bs bs' ∧ List.Forall₂ T as bs) (as.mapM f) (as'.mapM f') := by
  induction as generalizing w as' with
  | nil =>
    cases has
    simp only [List.mapM_nil]
    exact pure ⟨.nil, .nil⟩
  | cons a as ih =>
    cases has with
    | cons ha has =>
      simp only [List.mapM_cons]
      refine bind (hf w le_rfl _ _ ha) fun w₁ hw₁ b b' hb => ?_
      refine bind (ih (hQ.forall₂ hw₁ has) fun w' hw' => hf w' (hw₁.trans hw')) fun w₂ hw₂ bs bs' hbs => ?_
      exact pure ⟨.cons (hR hw₂ hb.1) hbs.1, .cons hb.2 hbs.2⟩

theorem foldlM {f : β → α → Run β} {f' : β' → α' → Run β'} {as : List α} {as' : List α'} {b : β} {b' : β'}
    (hQ : Grows Q) (has : List.Forall₂ (Q w) as as') (hb : R' w b b')
    (hf : ∀ w', w ≤ w' → ∀ a a' b b', Q w' a a' → R' w' b b' → L.Keeps w' R' (f b a) (f' b' a')) :
    L.Keeps w R' (as.foldlM f b) (as'.foldlM f' b') := by
  induction as generalizing w as' b b' with
  | nil =>
    cases has
    simp only [List.foldlM_nil]
    exact pure hb
  | cons a as ih =>
    cases has with
    | cons ha has =>
      simp only [List.foldlM_cons]
      refine bind (hf w le_rfl _ _ _ _ ha hb) fun w₁ hw₁ b₁ b₁' hb₁ => ?_
      exact ih (hQ.forall₂ hw₁ has) hb₁ fun w' hw' => hf w' (hw₁.trans hw')

theorem filterAuxM {f : α → Run Bool} {f' : α' → Run Bool} {as kept : List α} {as' kept' : List α'}
    (hQ : Grows Q) (has : List.Forall₂ (Q w) as as') (hkept : List.Forall₂ (Q w) kept kept')
    (hf : ∀ w', w ≤ w' → ∀ a a', Q w' a a' → L.Keeps w' (fun _ => Eq) (f a) (f' a')) :
    L.Keeps w (fun w' bs bs' => List.Forall₂ (Q w') bs bs' ∧ bs.reverse.Sublist (kept.reverse ++ as))
      (as.filterAuxM f kept) (as'.filterAuxM f' kept') := by
  induction as generalizing w as' kept kept' with
  | nil =>
    cases has
    simp only [List.filterAuxM, List.append_nil]
    exact pure ⟨hkept, List.Sublist.refl _⟩
  | cons a as ih =>
    cases has with
    | cons ha has =>
      simp only [List.filterAuxM]
      refine bind (hf w le_rfl _ _ ha) fun w₁ hw₁ b b' hb => ?_
      subst hb
      have hkept₁ := hQ.forall₂ hw₁ hkept
      have hnext : ∀ w', w₁ ≤ w' → ∀ a a', Q w' a a' → L.Keeps w' (fun _ => Eq) (f a) (f' a') :=
        fun w' hw' => hf w' (hw₁.trans hw')
      cases b with
      | true =>
        -- the kept items stand in reverse, so the new one is the last of them
        have h := ih (hQ.forall₂ hw₁ has) (List.Forall₂.cons (hQ hw₁ ha) hkept₁) hnext
        simp only [List.reverse_cons, List.append_assoc, List.singleton_append] at h
        exact h
      | false =>
        have hskip : (kept.reverse ++ as).Sublist (kept.reverse ++ a :: as) :=
          (List.sublist_cons_self a as).append_left _
        exact (ih (hQ.forall₂ hw₁ has) hkept₁ hnext).imp fun _ _ _ h => ⟨h.1, h.2.trans hskip⟩

/-- The items that pass a test are some of the items, in their order. -/
theorem filterM {f : α → Run Bool} {f' : α' → Run Bool} {as : List α} {as' : List α'} (hQ : Grows Q)
    (has : List.Forall₂ (Q w) as as')
    (hf : ∀ w', w ≤ w' → ∀ a a', Q w' a a' → L.Keeps w' (fun _ => Eq) (f a) (f' a')) :
    L.Keeps w (fun w' bs bs' => List.Forall₂ (Q w') bs bs' ∧ bs.Sublist as) (as.filterM f) (as'.filterM f') := by
  simp only [List.filterM]
  refine bind (filterAuxM hQ has .nil hf) fun w' _ bs bs' hbs => pure ⟨List.rel_reverse hbs.1, ?_⟩
  simpa using hbs.2

end Loops

/-! ### Operations -/

section Operations

theorem ofExcept {x : Except Cause α} {x' : Except Cause α'} (h : SameAnswer (R w) x x')
    (hcause : ∀ {cause}, x = .error cause → cause.Operational) :
    L.Keeps w R (Run.ofExcept x) (Run.ofExcept x') := by
  cases h with
  | ok h => exact pure h
  | error cause => exact fail (hcause rfl).2

/-- Both runs give a new function the same identity. -/
theorem freshId : L.Keeps w (fun _ => Eq) Run.freshId Run.freshId := by
  intro σ τ hstore
  obtain ⟨hid, hstore'⟩ := L.fresh hstore
  exact .done le_rfl hid hstore'

/-- Both runs give a new thunk the same cell. -/
theorem newCell : L.Keeps w (fun w' c c' => c = c' ∧ L.cell w' c) Run.newCell Run.newCell := by
  intro σ τ hstore
  obtain ⟨hsize, w', hw, hcell, hstore'⟩ := L.alloc hstore
  exact .done hw ⟨hsize, hcell⟩ hstore'

/-- Runs that first note whether they test identities. -/
theorem noting {tested tested' : Bool} {m : Run α} {m' : Run α'} (hsame : tested' = tested) (hm : L.Keeps w R m m') :
    L.Keeps w R (noteIdentityTest tested >>= fun _ => m) (noteIdentityTest tested' >>= fun _ => m') := by
  subst hsame
  exact fun σ τ hstore => hm _ _ (L.note tested' hstore)

theorem memoize {c : Nat} {v v' : Value} (hc : L.cell w c) (hv : L.value w v v') :
    L.Keeps w L.value (Run.memoize c v) (Run.memoize c v') := by
  intro σ τ hstore
  have h := L.memo hstore hc
  unfold Run.memoize
  generalize σ.memo? c = held at h
  generalize τ.memo? c = held' at h
  cases h with
  | some h => exact .done le_rfl h hstore
  | none => exact .done le_rfl hv (L.fill hstore hc hv)

variable {a a' b b' : Value}

theorem unary (op : Unary) (ha : L.value w a a') : L.Keeps w L.value (Run.unary op a) (Run.unary op a') :=
  ofExcept (Congruence.unary (S := L.congruence w) op ha) Unary.operational

theorem binary (op : Binary) (ha : L.value w a a') (hb : L.value w b b') :
    L.Keeps w L.value (Run.binary op a b) (Run.binary op a' b') := by
  have hs := L.settles w (op.testsIdentity a b)
  refine noting (Congruence.binary_testsIdentity_eq (S := L.congruence w) op ha hb hs) ?_
  exact ofExcept (Congruence.binary (S := L.congruence w) op ha hb hs) Binary.operational

theorem insert {key key' : Value} (hkey : L.value w key key') (ha : L.value w a a') (hb : L.value w b b') :
    L.Keeps w L.value (Run.insert key a b) (Run.insert key' a' b') := by
  have hs := L.settles w (key.searchTestsIdentity b)
  refine noting (Congruence.searchTestsIdentity_eq (S := L.congruence w) hkey hb hs) ?_
  exact ofExcept (Congruence.insert (S := L.congruence w) hkey ha hb hs) Value.insert_operational

/-- The pairs of dictionaries that are related. -/
def dict (L : Lockstep W) (w : W) (ps ps' : Dict) : Prop :=
  List.Forall₂ (L.congruence w).pair ps ps' ∧ L.keys.holds (ps.map (·.1))

theorem value_dict {ps ps' : Dict} (h : L.dict w ps ps') : L.value w (.dict ps) (.dict ps') :=
  (L.value_iff w _ _).2 (.dict h.1 h.2)

theorem grows_pair : Grows fun w => (L.congruence w).pair :=
  fun _ _ _ _ hw h => ⟨L.value_mono hw h.1, L.value_mono hw h.2⟩

theorem grows_dict : Grows L.dict :=
  fun _ _ _ _ hw h => ⟨grows_pair.forall₂ hw h.1, h.2⟩

theorem addPair {ps ps' : Dict} {key key' : Value} (hps : L.dict w ps ps') (hkey : L.value w key key')
    (ha : L.value w a a') : L.Keeps w L.dict (Run.addPair ps key a) (Run.addPair ps' key' a') := by
  have hs := L.settles w (Dict.testsIdentity key ps)
  refine noting (Congruence.search_eq (S := L.congruence w) hkey hps.1 hs) (pure ?_)
  exact ⟨Congruence.insertPair (S := L.congruence w) hkey ha hps.1 hs, L.keys.insert key a hps.2⟩

/-- A loop over the values of a dictionary leaves its keys alone. -/
theorem mapOver {f f' : Value → Run Value} (ha : L.value w a a')
    (hf : ∀ w', w ≤ w' → ∀ v v', L.value w' v v' → L.Keeps w' L.value (f v) (f' v')) :
    L.Keeps w L.value (Run.mapOver f a) (Run.mapOver f' a') := by
  cases (L.value_iff w a a').1 ha with
  | list hvs =>
    refine map (mapM (T := fun _ _ => True) @L.value_mono @L.value_mono hvs fun w' hw v v' hv => ?_)
      fun w' vs vs' hvs => (L.value_iff w' _ _).2 (.list hvs.1)
    exact (hf w' hw v v' hv).imp fun _ _ _ h => ⟨h, trivial⟩
  | @dict ps ps' hps hkeys =>
    refine map (mapM (T := fun p q => p.1 = q.1) grows_pair grows_pair hps fun w' hw p p' hp => ?_)
      fun w' qs qs' hqs => value_dict ⟨hqs.1, ?_⟩
    · refine bind (hf w' hw _ _ hp.2) fun w₁ hw₁ v v' hv => ?_
      exact pure ⟨⟨L.value_mono hw₁ hp.1, hv⟩, rfl⟩
    · rw [← (map_eq_map_iff_forall₂ Prod.fst ps qs).2 hqs.2]
      exact hkeys
  | closure i self => cases self <;> exact fail
  | _ => exact fail

/-- The pairs of a dictionary that pass a test have some of its keys. -/
theorem filterOver {f f' : Value → Run Bool} (ha : L.value w a a')
    (hf : ∀ w', w ≤ w' → ∀ v v', L.value w' v v' → L.Keeps w' (fun _ => Eq) (f v) (f' v')) :
    L.Keeps w L.value (Run.filterOver f a) (Run.filterOver f' a') := by
  cases (L.value_iff w a a').1 ha with
  | list hvs =>
    refine map (filterM @L.value_mono hvs hf) fun w' vs vs' hvs => ?_
    exact (L.value_iff w' _ _).2 (.list hvs.1)
  | dict hps hkeys =>
    refine map (filterM grows_pair hps fun w' hw p p' hp => hf w' hw _ _ hp.2) fun w' qs qs' hqs => ?_
    exact value_dict ⟨hqs.1, L.keys.sublist (hqs.2.map _) hkeys⟩
  | closure i self => cases self <;> exact fail
  | _ => exact fail

theorem foldAll {f f' : Value → Value → Run Value} {vs vs' : List Value} (hvs : List.Forall₂ (L.value w) vs vs')
    (hf : ∀ w', w ≤ w' → ∀ v v' acc acc', L.value w' v v' → L.value w' acc acc' →
      L.Keeps w' L.value (f acc v) (f' acc' v')) :
    L.Keeps w L.value (Run.foldAll f vs) (Run.foldAll f' vs') := by
  cases hvs with
  | nil => exact fail
  | cons hv hvs => exact foldlM @L.value_mono hvs hv hf

theorem foldOver {f f' : Value → Value → Run Value} (ha : L.value w a a')
    (hf : ∀ w', w ≤ w' → ∀ v v' acc acc', L.value w' v v' → L.value w' acc acc' →
      L.Keeps w' L.value (f acc v) (f' acc' v')) :
    L.Keeps w L.value (Run.foldOver f a) (Run.foldOver f' a') := by
  cases (L.value_iff w a a').1 ha with
  | list hvs => exact foldAll hvs hf
  | dict hps =>
    refine foldAll ?_ hf
    rw [List.forall₂_map_left_iff, List.forall₂_map_right_iff]
    exact hps.imp fun _ _ hp => hp.2
  | closure i self => cases self <;> exact fail
  | _ => exact fail

end Operations

end Lockstep

end Runs

end Treewalk
