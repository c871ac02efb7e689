import Treewalk.Proofs.Renaming
import Treewalk.Proofs.SimulationStep

/-!
# Runs that are equal up to renaming

A `Tracking` relates two evaluators with the same settings that run the same expressions on the same stack. In each
world it says which marks stand for each other and how the stores are related; values and environments are equal up to
that renaming, and failures are equal. It is a simulation (`Tracking.simulation`) that excuses the want of fuel and, if
it is said so, some failures of the left run.

Evaluators track each other with one more unit of fuel if they do so where thunks are forced
(`Tracking.interprets_nextWith`), because a declaration only allocates (`Tracking.declares`).

Seen from the other side, two runs are related as well (`Tracking.flip`).
-/

namespace Treewalk

open Run Filter

/-! ## Tracking -/

section Definitions

/-- How two runs of one expression are related. -/
structure Tracking (W : Type) [Preorder W] where
  config : Config
  /-- Which marks stand for each other. -/
  marks : W → Renaming
  store : W → Store → Store → Prop
  /-- The failures of the left run that the right one need not follow. -/
  pardons : Failure → Prop := fun _ => False
  mono : ∀ {w w' : W}, w ≤ w' → marks w ≤ marks w'
  ident_unique : ∀ (w : W) {i i' j j' : Nat}, marks w (.ident i) (.ident i') → marks w (.ident j) (.ident j') →
    (i = j ↔ i' = j')
  fresh : ∀ {w : W} {σ τ : Store}, store w σ τ → ∃ w', w ≤ w' ∧ marks w' (.ident σ.nextId) (.ident τ.nextId) ∧
    store w' { σ with nextId := σ.nextId + 1 } { τ with nextId := τ.nextId + 1 }
  note : ∀ {w : W} {σ τ : Store} (tested : Bool), store w σ τ →
    store w { σ with testedIdentity := σ.testedIdentity || tested }
      { τ with testedIdentity := τ.testedIdentity || tested }
  alloc : ∀ {w : W} {σ τ : Store} {r r' : Env} (e : Expr), store w σ τ → Env.Renamed (marks w) r r' →
    ∃ w', w ≤ w' ∧ marks w' (.thunk (σ.cells.size, e, r)) (.thunk (τ.cells.size, e, r')) ∧
      store w' { σ with cells := σ.cells.push none } { τ with cells := τ.cells.push none }
  pardons_attach : ∀ (s : CallStack) {f : Failure}, pardons f → pardons (s.attach f) := by exact fun _ _ => id

namespace Tracking

variable {W : Type} [Preorder W] (T : Tracking W)

/-- Values that are equal up to the renaming of a world. -/
def value (w : W) : Value → Value → Prop :=
  Value.Renamed (T.marks w)

/-- The simulation of a run by another one that is equal to it up to renaming. -/
def simulation : Simulation W where
  left := T.config
  right := T.config
  expr := Eq
  decl := Eq
  ident w i i' := T.marks w (.ident i) (.ident i')
  value := T.value
  env w := Env.Renamed (T.marks w)
  store := T.store
  stack := Eq
  failure := Eq
  pardons := T.pardons
  faithful := True
  expr_layer := Expr.layer_of_eq
  value_iff w := Value.renamed_iff (T.marks w)
  ident_faithful _ w i i' j j' h h' := by
    rw [Bool.eq_iff_iff, beq_iff_eq, beq_iff_eq]
    exact T.ident_unique w h h'
  value_mono hw h := h.mono (T.mono hw)
  env_mono hw h := h.mono (T.mono hw)
  env_bind name hr hv := hr.extend name (.value hv)
  fresh := T.fresh
  note _ := T.note
  failure_refl _ := rfl
  frame := by
    rintro s _ e _ rfl rfl
    rcases s.pushWithin_cases T.config.maxDepth e with ⟨m, _, h⟩ | h
    · exact Or.inl ⟨_, h, Or.inr h⟩
    · exact Or.inr ⟨h, h, rfl⟩
  attach hs hf := congrArg₂ CallStack.attach hs hf
  pardons_attach := T.pardons_attach

/-- The other run of a pair, from the related stores. -/
abbrev Simulates {α α' : Type} (w : W) (R : W → α → α' → Prop) (m : Run α) (ms : Nat → Run α') : Prop :=
  T.simulation.Simulates w R m ms

/-- Evaluators that track each other. -/
abbrev Interprets (I : Interpreter) (J : Nat → Interpreter) : Prop :=
  T.simulation.Interprets I J

end Tracking

end Definitions

namespace Tracking

variable {W : Type} [Preorder W] {T : Tracking W} {w : W} {α α' : Type} {R : W → α → α' → Prop}

/-! ## Outcomes -/

section Outcomes

variable {outcomes : Nat → Outcome α'} {σ : Store}

theorem exists_done {a : α} (h : T.simulation.Follows w R (.done a σ) outcomes) :
    ∃ w' a' τ, w ≤ w' ∧ R w' a a' ∧ T.store w' σ τ ∧ ∀ᶠ k in atTop, outcomes k = .done a' τ := by
  cases h with
  | excused hexcused =>
    cases hexcused with
    | tested hfaithful => exact absurd trivial hfaithful
  | @done w' _ a' _ τ _ hw ha hstore hdone => exact ⟨w', a', τ, hw, ha, hstore, hdone⟩

theorem exists_failed {f : Failure} (h : T.simulation.Follows w R (.failed f σ) outcomes) (hf : ¬T.pardons f) :
    ∃ w' τ, w ≤ w' ∧ T.store w' σ τ ∧ ∀ᶠ k in atTop, outcomes k = .failed f τ := by
  cases h with
  | excused hexcused =>
    cases hexcused with
    | tested hfaithful => exact absurd trivial hfaithful
    | pardoned hpardon => exact absurd hpardon hf
  | @failed w' _ _ _ τ _ hw heq hstore hfailed =>
    cases heq
    exact ⟨w', τ, hw, hstore, hfailed⟩

/-- Runs whose failures are results, if none is pardoned. -/
theorem attempt {m : Run Value} {ms : Nat → Run Value} (hstrict : ∀ f, ¬T.pardons f) (h : T.Simulates w T.value m ms) :
    T.Simulates w (fun w' => Result.Renamed (T.marks w')) m.attempt fun k => (ms k).attempt := by
  intro σ τ hstore
  have h := h σ τ hstore
  simp only [Run.attempt]
  generalize m σ = outcome at h
  cases outcome with
  | outOfFuel => exact .excused .outOfFuel
  | done v σ' =>
    obtain ⟨w', v', τ', hw, hv, hstore', hdone⟩ := exists_done h
    exact .done hw (.ok hv) hstore' (hdone.mono fun k hk => by simp only [hk])
  | failed f σ' =>
    obtain ⟨w', τ', hw, hstore', hfailed⟩ := exists_failed h (hstrict f)
    exact .done hw (.error f) hstore' (hfailed.mono fun k hk => by simp only [hk])

end Outcomes

/-! ## Evaluators -/

section Evaluators

variable {I : Interpreter} {J : Nat → Interpreter}

/-- A new thunk has a new cell on either side. -/
theorem defers : T.simulation.Defers := by
  rintro w r r' extended extended' e _ name rfl hr hext σ τ hstore
  obtain ⟨w', hw, hthunk, hstore'⟩ := T.alloc e hstore hr
  refine .done hw ?_ hstore' (Eventually.of_forall fun _ => rfl)
  exact (hext.mono (T.mono hw)).extend name (.thunk hthunk (hr.mono (T.mono hw)))

theorem declares [I.Remembers] (hI : T.Interprets I J) : T.simulation.Declares I J := by
  rintro w d _ r r' s _ rfl hr rfl
  refine Simulation.declare defers ?_ hI (.refl d) hr rfl
  rintro e _ name rfl
  rfl

/-- Names are looked up alike if thunks are forced alike. -/
theorem lookupWith {r r' : Env} {s : CallStack} {force : Nat → Expr → Env → CallStack → Run Value}
    {force' : Nat → Nat → Expr → Env → CallStack → Run Value} (name : String) (hr : Env.Renamed (T.marks w) r r')
    (hforce : ∀ {cell cell' : Nat} {e : Expr} {r r' : Env},
      T.marks w (.thunk (cell, e, r)) (.thunk (cell', e, r')) → Env.Renamed (T.marks w) r r' →
      T.Simulates w T.value (force cell e r s) fun k => force' k cell' e r' s) :
    T.Simulates w T.value (Run.lookupWith force name r s) fun k => Run.lookupWith (force' k) name r' s := by
  unfold Run.lookupWith
  have hbinding := hr.lookup name
  generalize r.lookup? name = found at hbinding
  generalize r'.lookup? name = found' at hbinding
  cases hbinding with
  | none => exact Simulation.fail _
  | some hb =>
    cases hb with
    | value hv => exact Simulation.pure hv
    | thunk hthunk hr => exact hforce hthunk hr

/-- **One more unit of fuel keeps evaluators on each other's track**, if thunks are forced alike. -/
theorem interprets_nextWith [I.Remembers] {force : Nat → Expr → Env → CallStack → Run Value}
    {force' : Nat → Nat → Expr → Env → CallStack → Run Value} (hI : T.Interprets I J)
    (hforce : ∀ {w : W} {cell cell' : Nat} {e : Expr} {r r' : Env} {s : CallStack},
      T.marks w (.thunk (cell, e, r)) (.thunk (cell', e, r')) → Env.Renamed (T.marks w) r r' →
      T.Simulates w T.value (force cell e r s) fun k => force' k cell' e r' s) :
    T.Interprets (I.nextWith T.config force) fun k => (J k).nextWith T.config (force' k) := by
  refine Simulation.Interprets.nextWith (fun _ => id) hI (declares hI) ?_
  rintro w r r' s _ name hr rfl
  exact lookupWith name hr hforce

/-- The right evaluator is the usual one. -/
theorem interprets_succ [I.Remembers] {force : Nat → Expr → Env → CallStack → Run Value}
    (hI : T.Interprets I (interpreter T.config))
    (hforce : ∀ {w : W} {cell cell' : Nat} {e : Expr} {r r' : Env} {s : CallStack},
      T.marks w (.thunk (cell, e, r)) (.thunk (cell', e, r')) → Env.Renamed (T.marks w) r r' →
      T.Simulates w T.value (force cell e r s)
        fun k => (interpreter T.config k).force T.config.strategy cell' e r' s) :
    T.Interprets (I.nextWith T.config force) (interpreter T.config) := by
  have h : T.Interprets (I.nextWith T.config force) fun k => interpreter T.config (k + 1) := by
    simp only [interpreter_succ_eq_nextWith]
    exact interprets_nextWith hI hforce
  exact ⟨fun he hr hs => Simulation.Simulates.of_succ (h.eval he hr hs),
    fun hf hvs hs => Simulation.Simulates.of_succ (h.apply hf hvs hs)⟩

/-- Without fuel, nothing is asked. -/
theorem interprets_zero (config : Config) : T.Interprets (interpreter config 0) J :=
  ⟨fun _ _ _ _ _ _ => .excused .outOfFuel, fun _ _ _ _ _ _ => .excused .outOfFuel⟩

end Evaluators

/-! ## The other side -/

section Flip

/-- The same two runs, with the sides exchanged. No failure is pardoned. -/
def flip (T : Tracking W) : Tracking W where
  config := T.config
  marks w := Function.swap (T.marks w)
  store w σ τ := T.store w τ σ
  mono hw m m' h := T.mono hw m' m h
  ident_unique w _ _ _ _ h h' := (T.ident_unique w h h').symm
  fresh h := T.fresh h
  note tested h := T.note tested h
  alloc e h hr := T.alloc e h hr.symm

end Flip

end Tracking

end Treewalk
