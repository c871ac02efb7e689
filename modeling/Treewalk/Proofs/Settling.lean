import Treewalk.Proofs.Replay

/-!
# Evaluation warms the store

Along one run, in which every mark stands for itself, an invariant of the marks and the store is kept
(`Tracking.keeping`). Two invariants are of interest.

* Stores stay coherent (`interprets_coherent`): a thunk and its memo cell belong to each other, and cells hold only what
  is known.
* **What expressions find from the store of the beginning, they find all along** (`interprets_settling`), also where a
  part of the run fails. By induction on the fuel: the evaluation of a thunk warms the store for the thunk itself, so
  the thunk can be evaluated again (`Replay`), and then filling its cell warms the store.
-/

namespace Treewalk

open Run Filter

/-! ## Invariants of one run -/

section Keeping

/-- What an invariant of the known marks and the store has to bear: that the store grows, and that something new is made
and becomes known. -/
structure Bearing (strategy : Strategy) (P : Set Mark → Store → Prop) : Prop where
  grow : ∀ {D : Set Mark} {σ τ : Store}, P D σ → σ.GrowsTo strategy τ → (∀ cell, τ.memo? cell = σ.memo? cell) → P D τ
  insert : ∀ {D : Set Mark} {σ τ : Store} {m : Mark}, P D σ → σ.GrowsTo strategy τ →
    (∀ cell, τ.memo? cell = σ.memo? cell) → ¬σ.Has m → τ.Has m → P (insert m D) τ

/-- One run that keeps an invariant. -/
def Tracking.keeping (config : Config) {P : Set Mark → Store → Prop} (hP : Bearing config.strategy P) :
    Tracking (Set Mark) where
  config := config
  marks := Renaming.on
  store D σ τ := P D σ ∧ σ = τ
  mono hD _ _ h := ⟨h.1, hD h.2⟩
  ident_unique D i i' j j' h h' := by
    cases h.1
    cases h'.1
    exact Iff.rfl
  fresh := by
    rintro D σ _ ⟨h, rfl⟩
    have hgrows : σ.GrowsTo config.strategy { σ with nextId := σ.nextId + 1 } :=
      ⟨Nat.le_succ _, le_rfl, id, fun _ _ => rfl⟩
    have hnext := hP.insert h hgrows (fun _ => rfl) (m := .ident σ.nextId) (lt_irrefl _) (Nat.lt_succ_self _)
    exact ⟨_, Set.subset_insert _ _, ⟨rfl, Set.mem_insert _ _⟩, hnext, rfl⟩
  note := by
    rintro D σ _ tested ⟨h, rfl⟩
    exact ⟨hP.grow h ⟨le_rfl, le_rfl, id, fun _ _ => rfl⟩ fun _ => rfl, rfl⟩
  alloc := by
    rintro D σ _ r r' e ⟨h, rfl⟩ hr
    obtain rfl := hr.eq (Renaming.on_exact D)
    have hnext := hP.insert h (.push _ σ) σ.memo?_push (m := .thunk (σ.cells.size, e, r)) (lt_irrefl _)
      (by simp [Store.Has])
    exact ⟨_, Set.subset_insert _ _, ⟨rfl, Set.mem_insert _ _⟩, hnext, rfl⟩

variable {config : Config} {P : Set Mark → Store → Prop} {hP : Bearing config.strategy P} {I : Interpreter}

/-- The run keeps the invariant where it forces a thunk, if it does so where the cell is filled. -/
theorem follows_force_keeping (hcoherent : ∀ {D : Set Mark} {σ : Store}, P D σ → σ.Coherent D)
    (hI : (Tracking.keeping config hP).Interprets I (interpreter config)) {D : Set Mark} {σ : Store} (h : P D σ)
    {t : Thunk} {s : CallStack} (ht : .thunk t ∈ D) (hr : ∀ m ∈ Env.marks t.2.2, m ∈ D)
    (hfill : config.strategy = .byNeed → ∀ {D' : Set Mark} {v : Value} {σ' : Store},
      I.eval t.2.1 t.2.2 s σ = .done v σ' → P D' σ' → (∀ m ∈ v.marks, m ∈ D') → σ'.memo? t.1 = none →
      P D' (σ'.fill t v)) :
    (Tracking.keeping config hP).simulation.Follows D (Tracking.keeping config hP).value
      (I.force config.strategy t.1 t.2.1 t.2.2 s σ)
      fun k => (interpreter config k).force config.strategy t.1 t.2.1 t.2.2 s σ := by
  have hfollows := hI.eval (w := D) (e := t.2.1) rfl (Env.renamed_on_iff.2 hr) (rfl : s = s) σ σ ⟨h, rfl⟩
  obtain ⟨limit, strategy⟩ := config
  cases strategy with
  | byName => exact hfollows
  | byNeed =>
    cases hmemo : σ.memo? t.1 with
    | some v =>
      simp only [force_of_some _ t.2.1 t.2.2 s hmemo]
      have hv := Value.renamed_on_iff.2 ((hcoherent h).memo ht hmemo)
      exact .done le_rfl hv ⟨h, rfl⟩ (Eventually.of_forall fun _ => rfl)
    | none =>
      simp only [force_of_none _ t.2.1 t.2.2 s hmemo, bind_apply]
      cases hn : I.eval t.2.1 t.2.2 s σ with
      | outOfFuel => exact .excused .outOfFuel
      | failed f σ' =>
        rw [hn] at hfollows
        obtain ⟨D', _, hD, hstore, hfailed⟩ := Tracking.exists_failed hfollows id
        exact .failed hD rfl hstore (hfailed.mono fun k hk => by simp only [hk])
      | done v σ' =>
        rw [hn] at hfollows
        obtain ⟨D', _, _, hD, hv, ⟨h', rfl⟩, hdone⟩ := Tracking.exists_done hfollows
        obtain rfl := Value.Renamed.eq (Renaming.on_exact D') hv
        cases hmemo' : σ'.memo? t.1 with
        | some held =>
          have hheld := Value.renamed_on_iff.2 ((hcoherent h').memo (hD ht) hmemo')
          simp only [memoize, hmemo']
          exact .done hD hheld ⟨h', rfl⟩ (hdone.mono fun k hk => by simp only [hk, hmemo'])
        | none =>
          have hnext := hfill rfl hn h' (Value.renamed_on_iff.1 hv) hmemo'
          simp only [memoize, hmemo']
          exact .done hD hv ⟨hnext, rfl⟩ (hdone.mono fun k hk => by simp only [hk, hmemo'])

end Keeping

/-! ## Coherence -/

section Coherence

theorem bearing_coherent (strategy : Strategy) : Bearing strategy fun D σ => σ.Coherent D where
  grow h hgrows hmemo := h.grow hgrows hmemo
  insert h hgrows hmemo hnew hm := h.insert hgrows hmemo hnew hm

/-- The run keeps the store coherent. -/
def coherence (config : Config) : Tracking (Set Mark) :=
  .keeping config (bearing_coherent config.strategy)

/-- **Evaluation keeps stores coherent.** -/
theorem interprets_coherent (config : Config) (n : Nat) :
    (coherence config).Interprets (interpreter config n) (interpreter config) := by
  induction n with
  | zero => exact Tracking.interprets_zero _
  | succ n hI =>
    rw [interpreter_succ_eq_nextWith]
    refine Tracking.interprets_succ (T := coherence config) hI ?_
    rintro D cell _ e r _ s ⟨⟨⟩, ht⟩ hr σ _ ⟨h, rfl⟩
    exact follows_force_keeping id hI h ht (Env.renamed_on_iff.1 hr) fun _ _ _ _ _ h' hv _ => h'.fill hv

end Coherence

/-! ## Settling -/

section Settling

/-- What expressions over the marks of the beginning find from the store of the beginning, they find from this store. -/
structure Settled (strategy : Strategy) (start : Set Mark) (first : Store) (D : Set Mark) (σ : Store) : Prop where
  coherent : σ.Coherent D
  start_subset : start ⊆ D
  warms : Warms strategy start first σ

variable {strategy : Strategy} {start D : Set Mark} {first σ : Store}

/-- In the beginning. -/
theorem Store.Coherent.settled (h : σ.Coherent D) (strategy : Strategy) : Settled strategy D σ D σ :=
  ⟨h, le_rfl, warms_of_grows h (.refl _ _) fun _ => rfl⟩

theorem bearing_settled (strategy : Strategy) (start : Set Mark) (first : Store) :
    Bearing strategy (Settled strategy start first) where
  grow h hgrows hmemo :=
    ⟨h.coherent.grow hgrows hmemo, h.start_subset,
      h.warms.trans (warms_of_grows h.coherent hgrows hmemo) h.start_subset⟩
  insert h hgrows hmemo hnew hm :=
    ⟨h.coherent.insert hgrows hmemo hnew hm, h.start_subset.trans (Set.subset_insert _ _),
      h.warms.trans (warms_of_grows h.coherent hgrows hmemo) h.start_subset⟩

/-- The run warms the store. -/
def settling (limit : Option Nat) (strategy : Strategy) (start : Set Mark) (first : Store) : Tracking (Set Mark) :=
  .keeping ⟨limit, strategy⟩ (bearing_settled strategy start first)

/-- **Evaluation warms the store**, from whatever store and under whatever limit. -/
theorem interprets_settling (strategy : Strategy) (n : Nat) : ∀ limit start first,
    (settling limit strategy start first).Interprets (interpreter ⟨limit, strategy⟩ n)
      (interpreter ⟨limit, strategy⟩) := by
  induction n with
  | zero => exact fun _ _ _ => Tracking.interprets_zero _
  | succ n ih =>
    intro limit start first
    rw [interpreter_succ_eq_nextWith]
    refine Tracking.interprets_succ (T := settling limit strategy start first) (ih limit start first) ?_
    rintro D cell _ e r _ s ⟨⟨⟩, ht⟩ hr σ _ ⟨h, rfl⟩
    have hmarks : ∀ m ∈ Env.marks r, m ∈ D := Env.renamed_on_iff.1 hr
    refine follows_force_keeping Settled.coherent (ih limit start first) h ht hmarks ?_
    intro hneed D' v σ' heval h' hv hempty
    cases hneed
    -- the evaluation of the thunk has not exhausted the limit, so there might as well be none
    have heval : eval ⟨none, .byNeed⟩ n e r s σ = .done v σ' := by
      have hdone : eval ⟨limit, .byNeed⟩ n e r s σ = .done v σ' := heval
      rw [← hdone]
      refine eval_unlimited fun m f τ _ hfailed => ?_
      rw [hdone] at hfailed
      cases hfailed
    -- what the evaluation of the thunk finds from the store it starts from, it finds from the store it leaves
    have hfollows := (ih none D σ).eval (w := D) (e := e) rfl (Env.renamed_on_iff.2 hmarks) (rfl : s = s) σ σ
      ⟨h.coherent.settled .byNeed, rfl⟩
    rw [show (interpreter ⟨none, .byNeed⟩ n).eval e r s σ = _ from heval] at hfollows
    obtain ⟨_, _, _, _, _, ⟨hown, rfl⟩, _⟩ := Tracking.exists_done hfollows
    obtain ⟨ρ, again, after, hagain, hmeets, hvalue⟩ := hown.warms.done hmarks ⟨nofun, n, heval⟩
    have hreplay : Replay D σ σ' (cell, e, r) v ρ again after :=
      ⟨ht, hmarks, hempty, hagain.on_stack, hmeets, hvalue⟩
    exact ⟨h'.coherent.fill hv, h'.start_subset, h'.warms.trans hreplay.warms h.start_subset⟩

/-- A whole evaluation warms the store, whether it ends with a value or a failure. -/
theorem Settled.evaluates (h : Settled strategy start first D σ) {limit : Option Nat} {e : Expr} {r : Env}
    {s : CallStack} {outcome : Outcome Value} {σ' : Store} (hr : ∀ m ∈ Env.marks r, m ∈ D)
    (heval : Evaluates ⟨limit, strategy⟩ e r s σ outcome) (hstore : outcome.store? = some σ') :
    ∃ D', Settled strategy start first D' σ' := by
  obtain ⟨-, n, rfl⟩ := heval
  have hfollows := (interprets_settling strategy n limit start first).eval (w := D) (e := e) rfl
    (Env.renamed_on_iff.2 hr) (rfl : s = s) σ σ ⟨h, rfl⟩
  change ((interpreter ⟨limit, strategy⟩ n).eval e r s σ).store? = _ at hstore
  generalize (interpreter ⟨limit, strategy⟩ n).eval e r s σ = outcome at hfollows hstore
  cases outcome with
  | outOfFuel => cases hstore
  | done v τ =>
    cases hstore
    obtain ⟨D', _, _, _, _, ⟨h', _⟩, _⟩ := Tracking.exists_done hfollows
    exact ⟨D', h'⟩
  | failed f τ =>
    cases hstore
    obtain ⟨D', _, _, ⟨h', _⟩, _⟩ := Tracking.exists_failed hfollows id
    exact ⟨D', h'⟩

end Settling

end Treewalk
