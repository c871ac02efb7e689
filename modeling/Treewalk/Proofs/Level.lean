import Treewalk.Proofs.Settling

/-!
# Level stores

Two stores are `Level` if some marks stand for each other one to one and the memo cells of those are filled alike. It
does not matter what else the stores have. Runs of one expression from level stores stay abreast
(`Level.evaluates`), and leave stores that are level again (`Departure.Abreast.level`).

* By name, **two evaluations may be done in either order** (`Level.of_crossing`): what each of them makes stands for
  what it makes in the other order.
* By need, a deferred expression is evaluated where it is first looked up. Its memo cell may be one that nothing stands
  for (`Spare`), so **looking it up stays level with evaluating it** (`Level.force`).
-/

namespace Treewalk

open Run Filter

/-! ## Runs from level stores -/

section Level

/-- Stores in which marks stand for each other, one to one, and with them what their memo cells hold. -/
structure Level (ρ : Renaming) (σ τ : Store) : Prop where
  oneToOne : ρ.OneToOne
  both : ∀ {m m' : Mark}, ρ m m' → σ.Both τ m m'
  memo : ∀ {t t' : Thunk}, ρ (.thunk t) (.thunk t') → Option.Rel (Value.Renamed ρ) (σ.memo? t.1) (τ.memo? t'.1)

theorem rel_renamed_mono {ρ ρ' : Renaming} (hρ : ρ ≤ ρ') {held held' : Option Value}
    (h : Option.Rel (Value.Renamed ρ) held held') : Option.Rel (Value.Renamed ρ') held held' := by
  cases h with
  | none => exact .none
  | some hv => exact .some (hv.mono hρ)

theorem rel_renamed_symm {ρ : Renaming} {held held' : Option Value} (h : Option.Rel (Value.Renamed ρ) held held') :
    Option.Rel (Value.Renamed (flip ρ)) held' held := by
  cases h with
  | none => exact .none
  | some hv => exact .some hv.symm

/-- Two runs from level stores. -/
def Departure.between (strategy : Strategy) (ρ : Renaming) (σ τ : Store) : Departure :=
  ⟨strategy, ρ, σ, τ, ∅, False⟩

variable {strategy : Strategy} {ρ : Renaming} {σ σ' τ τ' : Store} {w : Stage}

/-- The stage at which the runs start. -/
def Level.stage (h : Level ρ σ τ) : Stage :=
  ⟨ρ, h.oneToOne, False⟩

theorem Level.abreast (h : Level ρ σ τ) (strategy : Strategy) :
    (Departure.between strategy ρ σ τ).Abreast h.stage σ τ where
  start := le_rfl
  both := h.both
  memo ht _ := h.memo ht
  lagging _ _ := False.elim
  left := .refl _ _
  right := .refl _ _
  left_old hm _ := hm
  right_old _ {_ _} hm _ := hm
  filled_old _ {_ _} _ hnone hsome := by
    cases hnone.symm.trans hsome
  catches := id

/-- Runs that stay abreast leave level stores, where nothing was exempt. -/
theorem Departure.Abreast.level {d : Departure} (h : d.Abreast w σ τ) (hd : d.exempt = ∅) : Level w.marks σ τ where
  oneToOne := w.oneToOne
  both := h.both
  memo ht := h.memo ht fun hmem => by
    rw [hd] at hmem
    cases hmem

/-- **Runs from level stores stay abreast.** -/
theorem Level.evaluates (h : Level ρ σ τ) {e : Expr} {r r' : Env} {s : CallStack} {v : Value}
    (hr : Env.Renamed ρ r r') (heval : Evaluates ⟨none, strategy⟩ e r s σ (.done v σ')) :
    ∃ w v' τ', Evaluates ⟨none, strategy⟩ e r' s τ (.done v' τ') ∧ v.Renamed w.marks v' ∧
      (Departure.between strategy ρ σ τ).Abreast w σ' τ' := by
  obtain ⟨-, n, hn⟩ := heval
  have hfollows := (interprets_of_no_exempt (d := Departure.between strategy ρ σ τ) rfl none n).eval (w := h.stage)
    (e := e) rfl hr (rfl : s = s) σ τ (h.abreast strategy)
  rw [show (interpreter ⟨none, (Departure.between strategy ρ σ τ).strategy⟩ n).eval e r s σ = _ from hn] at hfollows
  obtain ⟨w, v', τ', _, hv, hend, hdone⟩ := Tracking.exists_done hfollows
  exact ⟨w, v', τ', .of_eventually nofun hdone, hv, hend⟩

end Level

/-! ## Either order -/

section Crossing

variable {D : Set Mark} {σ σ₁ σ₂ σ₁₂ σ₂₁ : Store} {w₁ w₂ : Stage}

/-- What the first evaluation makes stands for what it makes as the second one, and the other way round. -/
def Renaming.crossing (ρ₁ ρ₂ : Renaming) : Renaming :=
  fun m m' => ρ₁ m m' ∨ ρ₂ m' m

/-- What stands for each other in either way is one to one, because the two ways have only the start in common. -/
theorem Renaming.OneToOne.crossing {ρ₁ ρ₂ : Renaming} (h₁ : ρ₁.OneToOne) (h₂ : ρ₂.OneToOne)
    (hcommon : ∀ {m m' n n' : Mark}, ρ₁ m m' → ρ₂ n' n → m.number = n.number ∨ m'.number = n'.number →
      m = n ∧ m' = n') : (ρ₁.crossing ρ₂).OneToOne := by
  rintro m m' n n' (hm | hm) (hn | hn) hnumber
  · exact h₁ hm hn hnumber
  · exact hcommon hm hn hnumber
  · obtain ⟨heq, heq'⟩ := hcommon hn hm (hnumber.imp Eq.symm Eq.symm)
    exact ⟨heq.symm, heq'.symm⟩
  · exact (h₂ hm hn hnumber.symm).symm

/-- **By name, two evaluations leave level stores in either order.** The first from `σ` leaves `σ₁` and then the second
`σ₁₂`; the second from `σ` leaves `σ₂` and then the first `σ₂₁`. -/
theorem Level.of_crossing (hσ : σ.Coherent D)
    (h₁ : (Departure.between .byName (Renaming.on D) σ σ₂).Abreast w₁ σ₁ σ₂₁)
    (h₂ : (Departure.between .byName (Renaming.on D) σ σ₁).Abreast w₂ σ₂ σ₁₂) :
    Level (w₁.marks.crossing w₂.marks) σ₁₂ σ₂₁ where
  oneToOne := by
    have hcommon : ∀ {m m' n n' : Mark}, Renaming.on D m m' → Renaming.on D n' n →
        m.number = n.number ∨ m'.number = n'.number → m = n ∧ m' = n' := by
      rintro m _ n _ ⟨rfl, hm⟩ ⟨rfl, hn⟩ hnumber
      exact and_self_iff.2 (hσ.single m hm _ hn (or_self_iff.1 hnumber))
    refine w₁.oneToOne.crossing w₂.oneToOne fun {m m' n n'} hm hn hnumber => ?_
    rcases hnumber with hleft | hright
    · -- both are older than the second evaluation from the left, so they are older than both
      have hold : Renaming.on D n' n := h₂.right_old h₂.catches hn ((h₁.both hm).left.congr hleft)
      have hnew : σ.Has m := (hσ.has n' hold.2).congr (by rw [hleft, hold.1])
      exact hcommon (h₁.left_old hm hnew) hold (Or.inl hleft)
    · have hold : Renaming.on D m m' := h₁.right_old h₁.catches hm ((h₂.both hn).left.congr hright.symm)
      have hnew : σ.Has n' := (hσ.has m hold.2).congr (by rw [← hright, hold.1])
      exact hcommon hold (h₂.left_old hn hnew) (Or.inr hright)
  both := by
    rintro m m' (hm | hm)
    · exact (h₁.both hm).grow h₂.right (.refl .byName _)
    · exact (h₂.both hm).symm.grow (.refl .byName _) h₁.right
  memo := by
    -- by name, the second evaluation fills no cell
    have hleft : ∀ cell, σ₁₂.memo? cell = σ₁.memo? cell := h₂.right.byName rfl
    have hright : ∀ cell, σ₂₁.memo? cell = σ₂.memo? cell := h₁.right.byName rfl
    rintro t t' (ht | ht)
    · rw [hleft]
      exact rel_renamed_mono (fun _ _ => Or.inl) (h₁.memo ht False.elim)
    · rw [hright]
      exact rel_renamed_mono (fun _ _ => Or.inr) (rel_renamed_symm (h₂.memo ht False.elim))

end Crossing

/-! ## Deferred expressions -/

section Spare

/-- An empty memo cell on the right that nothing stands for. -/
structure Spare (ρ : Renaming) (τ : Store) (cell : Nat) : Prop where
  lt : cell < τ.cells.size
  empty : τ.memo? cell = none
  unmarked : ∀ {m : Mark} {t : Thunk}, ρ m (.thunk t) → t.1 ≠ cell

variable {strategy : Strategy} {ρ : Renaming} {σ σ' τ τ' : Store} {w : Stage} {cell : Nat}

/-- Runs leave it as it is. -/
theorem Spare.onward (h : Spare ρ τ cell) (habreast : (Departure.between strategy ρ σ τ).Abreast w σ' τ') :
    Spare w.marks τ' cell := by
  have hunmarked : ∀ {m : Mark} {t : Thunk}, w.marks m (.thunk t) → t.1 ≠ cell := by
    rintro m t ht rfl
    exact h.unmarked (habreast.right_old habreast.catches ht h.lt) rfl
  refine ⟨h.lt.trans_le habreast.right.size, ?_, hunmarked⟩
  cases hheld : τ'.memo? cell with
  | none => rfl
  | some v =>
    obtain ⟨t, t', ht, hcell, _⟩ := habreast.filled_old habreast.catches h.lt h.empty hheld
    exact absurd hcell (hunmarked ht)

/-- Filling it leaves the stores level. -/
theorem Level.fill (h : Level ρ σ τ) {u : Thunk} (hu : Spare ρ τ u.1) (v : Value) : Level ρ σ (τ.fill u v) where
  oneToOne := h.oneToOne
  both hm := (h.both hm).grow (.refl .byNeed _) (.fill v hu.empty)
  memo {t t'} ht := by
    have hmemo : (τ.fill u v).memo? t'.1 = τ.memo? t'.1 := by
      rw [Store.fill, Store.memo?_fill hu.lt, if_neg (hu.unmarked ht).symm]
    rw [hmemo]
    exact h.memo ht

/-- Another one stays spare. -/
theorem Spare.fill {u : Thunk} (h : Spare ρ τ cell) (hu : u.1 < τ.cells.size) (hne : u.1 ≠ cell) (v : Value) :
    Spare ρ (τ.fill u v) cell where
  lt := by
    rw [Store.fill, Array.set!_eq_setIfInBounds, Array.size_setIfInBounds]
    exact h.lt
  empty := by
    rw [Store.fill, Store.memo?_fill hu, if_neg hne, h.empty]
  unmarked := h.unmarked

variable {e : Expr} {r r' env : Env} {s : CallStack} {v : Value} {name : String}

/-- A name that is bound to a deferred expression is looked up for the first time. -/
theorem Evaluates.symbol_of_none {t : Thunk} (hname : env.lookup? name = some (.thunk t.1 t.2.1 t.2.2))
    (hempty : σ.memo? t.1 = none) (hempty' : σ'.memo? t.1 = none)
    (h : Evaluates ⟨none, .byNeed⟩ t.2.1 t.2.2 s σ (.done v σ')) :
    Evaluates ⟨none, .byNeed⟩ (.symbol name) env s σ (.done v (σ'.fill t v)) := by
  obtain ⟨-, n, hn⟩ := h.on_stack (s.push (.symbol name))
  refine ⟨nofun, n + 1, ?_⟩
  have hforce : (interpreter ⟨none, .byNeed⟩ n).force .byNeed t.1 t.2.1 t.2.2 (s.push (.symbol name)) σ =
      .done v (σ'.fill t v) := by
    rw [force_of_none _ _ _ _ hempty, bind_apply, show (interpreter ⟨none, .byNeed⟩ n).eval _ _ _ σ = _ from hn]
    simp only [memoize, hempty']
    rfl
  rw [eval_succ]
  simp only [Run.inFrame, CallStack.pushWithin_none, Interpreter.evalStep, Interpreter.lookup, hname, hforce]

/-- And later. -/
theorem Evaluates.symbol_of_some {t : Thunk} (hname : env.lookup? name = some (.thunk t.1 t.2.1 t.2.2))
    (hheld : σ.memo? t.1 = some v) (s : CallStack) :
    Evaluates ⟨none, .byNeed⟩ (.symbol name) env s σ (.done v σ) := by
  refine ⟨nofun, 1, ?_⟩
  rw [eval_succ]
  simp only [Run.inFrame, CallStack.pushWithin_none, Interpreter.evalStep, Interpreter.lookup, hname,
    force_of_some _ _ _ _ hheld]

/-- **Looking up a deferred expression stays level with evaluating it.** -/
theorem Level.force (h : Level ρ σ τ) {t : Thunk} (ht : Spare ρ τ t.1)
    (hname : env.lookup? name = some (.thunk t.1 t.2.1 t.2.2)) (hr : Env.Renamed ρ r t.2.2)
    (heval : Evaluates ⟨none, .byNeed⟩ t.2.1 r s σ (.done v σ')) :
    ∃ (ρ' : Renaming) (v' : Value) (τ' : Store), ρ ≤ ρ' ∧
      Evaluates ⟨none, .byNeed⟩ (.symbol name) env s τ (.done v' τ') ∧
      Level ρ' σ' τ' ∧ v.Renamed ρ' v' ∧ τ'.memo? t.1 = some v' ∧
      ∀ cell, t.1 ≠ cell → Spare ρ τ cell → Spare ρ' τ' cell := by
  obtain ⟨w, v', υ, heval', hv, habreast⟩ := h.evaluates hr heval
  have hspare := ht.onward habreast
  refine ⟨w.marks, v', υ.fill t v', habreast.start, .symbol_of_none hname ht.empty hspare.empty heval',
    (habreast.level rfl).fill hspare v', hv, ?_, fun cell hne hcell => (hcell.onward habreast).fill hspare.lt hne v'⟩
  rw [Store.fill, Store.memo?_fill hspare.lt, if_pos rfl]

end Spare

end Treewalk
