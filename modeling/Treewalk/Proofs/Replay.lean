import Treewalk.Proofs.Backtraces
import Treewalk.Proofs.DepthLimit
import Treewalk.Proofs.Warming

/-!
# Thunks that are evaluated again

A thunk has been evaluated, but its memo cell is still empty. If it is evaluated once more, all that it needs is filled;
so the second evaluation changes no cell of before, and its value is equal to the first one up to renaming (`Replay`).
The same happens if it is evaluated again later, when the store has grown (`flat_run`).

Hence **filling the cell with the value of the thunk makes no difference** (`Replay.warms`). Two runs go abreast, one
with the cell empty and one with the cell filled, until the first one forces the cell. Then it evaluates the thunk
again, and catches up with the second one (`Replay.exists_caught`). Under a limit it may fail to.
-/

namespace Treewalk

open Run Filter

/-! ## Flat runs -/

section Flat

/-- The cells of the marks of a set that are empty. -/
def Store.emptyCells (σ : Store) (T : Set Mark) : Set Nat :=
  { cell | ∃ t : Thunk, .thunk t ∈ T ∧ t.1 = cell ∧ σ.memo? cell = none }

/-- Two runs that fill none of the empty cells of a set, from a store and from what it has grown to. -/
def Departure.flat (T : Set Mark) (base σ : Store) : Departure :=
  ⟨.byNeed, Renaming.on T, base, σ, base.emptyCells T, False⟩

variable {T : Set Mark} {base base' σ σ' : Store} {w : Stage}

/-- The right run changes no cell of before. -/
theorem Departure.Abreast.memo?_flat (h : (Departure.flat T base σ).Abreast w base' σ')
    (hgrows : base.GrowsTo .byNeed σ) {cell : Nat} (hcell : cell < σ.cells.size) : σ'.memo? cell = σ.memo? cell := by
  cases hmemo : σ.memo? cell with
  | some v => exact h.right.filled hmemo
  | none =>
    cases hmemo' : σ'.memo? cell with
    | none => rfl
    | some v =>
      -- what is filled belongs to the set and has not been empty in the beginning
      obtain ⟨t, t', ht, rfl, hnot⟩ := h.filled_old h.catches hcell hmemo hmemo'
      obtain ⟨⟨⟩, hmem⟩ := h.right_old h.catches ht hcell
      cases hbase : base.memo? t.1 with
      | none => exact absurd ⟨t, hmem, rfl, hbase⟩ hnot
      | some u =>
        rw [hgrows.filled hbase] at hmemo
        cases hmemo

/-- **A flat run is repeated from any store that grows.** -/
theorem flat_run {e : Expr} {r : Env} {s : CallStack} {v : Value} (hbase : base.Coherent T)
    (hgrows : base.GrowsTo .byNeed σ) (hr : ∀ m ∈ Env.marks r, m ∈ T)
    (heval : Evaluates ⟨none, .byNeed⟩ e r s base (.done v base'))
    (hflat : ∀ cell ∈ base.emptyCells T, base'.memo? cell = none) :
    ∃ w v' σ', Evaluates ⟨none, .byNeed⟩ e r s σ (.done v' σ') ∧ (Departure.flat T base σ).Abreast w base' σ' ∧
      v.Renamed w.marks v' := by
  obtain ⟨-, n, heval⟩ := heval
  let d := Departure.flat T base σ
  have hstart : d.Abreast (Stage.on T hbase.oneToOne) base σ := by
    refine d.abreast_on rfl hbase (fun m hm => hgrows.has (hbase.has m hm)) ?_ fun t ht hnot => ?_
    · rintro cell ⟨_, _, _, hempty⟩
      exact hempty
    · show σ.memo? t.1 = base.memo? t.1
      cases hv : base.memo? t.1 with
      | none => exact absurd ⟨t, ht, rfl, hv⟩ hnot
      | some v => exact hgrows.filled hv
  -- the evaluator that gives up on the empty cells does not need to
  have hguarded : (guarded d.exempt ⟨none, .byNeed⟩ n).eval e r s base = .done v base' := by
    refine ((spares_guarded d.exempt none n).1 e r s).2 ?_ heval hflat
    rintro _ ⟨t, ht, rfl, _⟩
    exact hbase.has _ ht
  have hI := interprets_abreast none d d.exempt (fun n w σ τ t t' s _ _ hmem _ hnot => absurd hmem hnot) n
  have henv : Env.Renamed (Stage.on T hbase.oneToOne).marks r r := Env.renamed_on_iff.2 hr
  have hfollows := hI.eval (w := Stage.on T hbase.oneToOne) (e := e) rfl henv (rfl : s = s) base σ hstart
  rw [show (guarded d.exempt ⟨none, d.strategy⟩ n).eval e r s base = _ from hguarded] at hfollows
  obtain ⟨w, v', σ', _, hv, hend, hdone⟩ := Tracking.exists_done hfollows
  exact ⟨w, v', σ', .of_eventually nofun hdone, hend, hv⟩

end Flat

/-! ## Evaluating a thunk again -/

section Replays

/-- The thunk has been evaluated to the value, from a store `before` that has become `σ` thereby, and its memo cell is
still empty. If it is evaluated again, it has the value `again` and leaves the store `after`. -/
structure Replay (D : Set Mark) (before σ : Store) (t : Thunk) (v : Value) (ρ : Renaming) (again : Value)
    (after : Store) : Prop where
  mem : .thunk t ∈ D
  captured : ∀ m ∈ Env.marks t.2.2, m ∈ D
  empty : σ.memo? t.1 = none
  evaluates : ∀ s, Evaluates ⟨none, .byNeed⟩ t.2.1 t.2.2 s σ (.done again after)
  meets : Meets D before σ σ after ρ
  value : v.Renamed ρ again

/-- Without a limit, values do not depend on the stack. -/
theorem Evaluates.on_stack {strategy : Strategy} {e : Expr} {r : Env} {s : CallStack} {σ σ' : Store} {v : Value}
    (h : Evaluates ⟨none, strategy⟩ e r s σ (.done v σ')) (s' : CallStack) :
    Evaluates ⟨none, strategy⟩ e r s' σ (.done v σ') := by
  obtain ⟨-, n, hn⟩ := h
  refine ⟨nofun, n, ?_⟩
  have hattach : ∀ s, (Surroundings.interpreter strategy n ⟨CallStack.attach, s⟩).eval e r s σ =
      eval ⟨none, strategy⟩ n e r s σ := fun s => congrArg (·.eval e r s σ) (interpreterHandling_attach _ n)
  rcases (uniform_eval_apply strategy n).1 e r σ with h | ⟨v', τ, h⟩ | ⟨cause, chain, τ, h⟩
  · cases hn.symm.trans ((hattach s).symm.trans (h ⟨_, s⟩))
  · cases hn.symm.trans ((hattach s).symm.trans (h ⟨_, s⟩))
    exact (hattach s').symm.trans (h ⟨_, s'⟩)
  · cases hn.symm.trans ((hattach s).symm.trans (h ⟨_, s⟩))

/-- The marks that stand for themselves when a thunk is evaluated again. -/
def Renaming.kept (ρ : Renaming) : Set Mark :=
  { m | ρ m m }

/-- The store in which the memo cell of the thunk is filled. -/
def Store.fill (σ : Store) (t : Thunk) (v : Value) : Store :=
  { σ with cells := σ.cells.set! t.1 (some v) }

theorem Store.has_fill {σ : Store} {t : Thunk} {v : Value} {m : Mark} : (σ.fill t v).Has m ↔ σ.Has m := by
  cases m with
  | ident i => exact Iff.rfl
  | thunk u => simp [Store.Has, Store.fill]

namespace Replay

variable {D : Set Mark} {before σ after : Store} {t : Thunk} {v again : Value} {ρ : Renaming}

theorem grows (h : Replay D before σ t v ρ again after) : σ.GrowsTo .byNeed after := by
  obtain ⟨-, n, heval⟩ := h.evaluates CallStack.empty
  exact (grows_eval_apply ⟨none, .byNeed⟩ n).1 _ _ _ _ _ (congrArg Outcome.store? heval)

theorem self (h : Replay D before σ t v ρ again after) : ρ (.thunk t) (.thunk t) :=
  h.meets.fixes _ h.mem

theorem cell_lt (h : Replay D before σ t v ρ again after) : t.1 < σ.cells.size :=
  (h.meets.both h.self).left

/-- What is kept is closed: a cell that has been filled is not filled again. -/
theorem coherent (h : Replay D before σ t v ρ again after) : σ.Coherent ρ.kept where
  has m hm := (h.meets.both hm).left
  single m hm n hn hnumber := (h.meets.oneToOne hm hn (Or.inl hnumber)).1
  memo {u x} hu hx := by
    obtain ⟨x', hx', hrenamed⟩ := h.meets.filled hu hx
    rw [h.grows.filled hx] at hx'
    cases hx'
    exact (Value.renamed_self_iff (w := ρ)).1 hrenamed

/-- Nothing of what is kept is filled when the thunk is evaluated again. -/
theorem flat (h : Replay D before σ t v ρ again after) : ∀ cell ∈ σ.emptyCells ρ.kept, after.memo? cell = none := by
  rintro _ ⟨u, hu, rfl, hempty⟩
  exact h.meets.unfilled hu hempty hempty

end Replay

end Replays

/-! ## Catching up -/

section CatchUp

/-- Two runs, of which the right one starts with the memo cell of the thunk filled. -/
def Departure.ahead (T : Set Mark) (σ : Store) (t : Thunk) (v : Value) : Departure :=
  ⟨.byNeed, Renaming.on T, σ, σ.fill t v, {t.1}, True⟩

/-- What stands for each other once the left run has evaluated the thunk again: what it has made stands for what the
first evaluation has made. -/
def Renaming.catchUp (w ρ φ : Renaming) : Renaming :=
  fun m m' => w m m' ∨ ρ.comp φ m' m

variable {D : Set Mark} {before σ after σ' σ'' τ : Store} {t : Thunk} {v v' again : Value} {ρ : Renaming} {w φ : Stage}
  {m m' : Mark}

namespace Replay

/-- What the left run has had before it evaluates the thunk stands for itself. -/
theorem eq_of_has (h : Replay D before σ t v ρ again after) (hφ : (Departure.flat ρ.kept σ σ').Abreast φ after σ'')
    (hm : ρ.comp φ.marks m' m) (hhas : σ'.Has m) : m = m' ∧ m ∈ ρ.kept := by
  obtain ⟨n, hn, hnm⟩ := hm
  obtain ⟨rfl, hkept⟩ := hφ.right_old hφ.catches hnm hhas
  exact ⟨(h.meets.oneToOne hkept hn (Or.inr rfl)).1, hkept⟩

/-- So does what is kept. -/
theorem eq_of_kept (h : Replay D before σ t v ρ again after) (hφ : (Departure.flat ρ.kept σ σ').Abreast φ after σ'')
    {n : Mark} (hn : n ∈ ρ.kept) (hm : ρ.comp φ.marks m' m) (hnumber : n.number = m'.number) : n = m ∧ n = m' := by
  obtain ⟨l, hl, hlm⟩ := hm
  obtain ⟨rfl, rfl⟩ := h.meets.oneToOne hn hl (Or.inl hnumber)
  exact ⟨(φ.oneToOne (hφ.start _ _ ⟨rfl, hn⟩) hlm (Or.inl rfl)).2, rfl⟩

theorem catchUp_oneToOne (h : Replay D before σ t v ρ again after)
    (hw : (Departure.ahead ρ.kept σ t v).Abreast w σ' τ) (hcaught : ¬w.caught)
    (hφ : (Departure.flat ρ.kept σ σ').Abreast φ after σ'') : (w.marks.catchUp ρ φ.marks).OneToOne := by
  have hcomp := h.meets.oneToOne.comp φ.oneToOne
  have hleft : ∀ {m m' : Mark}, ρ.comp φ.marks m' m → σ.Has m' := fun ⟨_, hn, _⟩ => (h.meets.both hn).left
  -- a pair of before and a pair that comes from the first evaluation
  have hmixed : ∀ {m m' n n' : Mark}, w.marks m m' → ρ.comp φ.marks n' n →
      m.number = n.number ∨ m'.number = n'.number → m = n ∧ m' = n' := by
    intro m m' n n' hm hn hnumber
    rcases hnumber with hnumber | hnumber
    · obtain ⟨rfl, hkept⟩ := h.eq_of_has hφ hn ((hw.both hm).left.congr hnumber)
      exact w.oneToOne hm (hw.start _ _ ⟨rfl, hkept⟩) (Or.inl hnumber)
    · -- the first evaluation was over before the right run began
      have hold : (σ.fill t v).Has m' := Store.has_fill.2 ((hleft hn).congr hnumber.symm)
      obtain ⟨rfl, hkept⟩ := hw.right_old hcaught hm hold
      exact h.eq_of_kept hφ hkept hn hnumber
  rintro m m' n n' (hm | hm) (hn | hn) hnumber
  · exact w.oneToOne hm hn hnumber
  · exact hmixed hm hn hnumber
  · obtain ⟨hleft, hright⟩ := hmixed hn hm (hnumber.imp Eq.symm Eq.symm)
    exact ⟨hleft.symm, hright.symm⟩
  · exact (hcomp hm hn hnumber.symm).symm

/-- The memo cells of what the thunk has made in the two evaluations are filled alike. -/
theorem rel_memo?_of_new (h : Replay D before σ t v ρ again after)
    (hw : (Departure.ahead ρ.kept σ t v).Abreast w σ' τ) (hcaught : ¬w.caught)
    (hφ : (Departure.flat ρ.kept σ σ').Abreast φ after σ'') {u u' : Thunk}
    (hu : ρ.comp φ.marks (.thunk u') (.thunk u)) (hnew : ¬σ'.Has (.thunk u)) :
    Option.Rel (Value.Renamed (w.marks.catchUp ρ φ.marks)) (σ''.memo? u.1) (τ.memo? u'.1) := by
  obtain ⟨n, hn, hnu⟩ := hu
  cases h.meets.both hn with
  | @thunk _ x hold _ =>
  -- in the second evaluation it is new as well
  have hx : ¬σ.Has (.thunk x) := by
    intro hx
    obtain ⟨⟨⟩, _⟩ := hφ.left_old hnu hx
    exact hnew (hw.left.has hx)
  have hrel := hφ.memo hnu fun ⟨y, hy, hcell, _⟩ =>
    absurd (Store.Has.congr (n := .thunk x) (h.coherent.has _ hy) (congrArg Sum.inr hcell)) hx
  have hne : ∀ y : Thunk, .thunk y ∈ ρ.kept → y.1 ≠ u'.1 := by
    intro y hy hcell
    obtain ⟨_, heq⟩ := h.meets.oneToOne hy hn (Or.inl (congrArg Sum.inr hcell))
    exact hx (heq ▸ h.coherent.has _ hy)
  cases hfirst : σ.memo? u'.1 with
  | some a =>
    obtain ⟨a', ha', hrenamed⟩ := h.meets.filled hn hfirst
    have hright : τ.memo? u'.1 = some a := hw.right.filled ((Store.GrowsTo.fill v h.empty).filled hfirst)
    rw [hright]
    rw [ha'] at hrel
    generalize σ''.memo? u.1 = held at hrel ⊢
    cases hrel with
    | some hrenamed' => exact .some ((hrenamed.comp hrenamed').symm.mono fun _ _ => Or.inr)
  | none =>
    rw [h.meets.unfilled hn hfirst (Store.memo?_of_not_has hx)] at hrel
    have hright : τ.memo? u'.1 = none := by
      have hfill : (σ.fill t v).memo? u'.1 = none := by
        rw [Store.fill, Store.memo?_fill h.cell_lt, if_neg (hne t h.self), hfirst]
      cases hlate : τ.memo? u'.1 with
      | none => rfl
      | some a =>
        have hcell : (σ.fill t v).Has (.thunk u') := Store.has_fill.2 hold
        obtain ⟨y, y', hy, hsame, _⟩ := hw.filled_old hcaught hcell hfill hlate
        obtain ⟨⟨⟩, hkept⟩ := hw.right_old hcaught hy (lt_of_eq_of_lt hsame hcell)
        exact absurd hsame (hne y hkept)
    rw [hright]
    generalize σ''.memo? u.1 = held at hrel ⊢
    cases hrel with
    | none => exact .none

/-- The right run has the value of the thunk. -/
theorem memo?_ahead (h : Replay D before σ t v ρ again after) (hw : (Departure.ahead ρ.kept σ t v).Abreast w σ' τ) :
    τ.memo? t.1 = some v := by
  refine hw.right.filled ?_
  show (σ.fill t v).memo? t.1 = some v
  rw [Store.fill, Store.memo?_fill h.cell_lt, if_pos rfl]

/-- The runs are abreast once the left one has filled the cell with the value of the thunk. -/
theorem abreast_catchUp (h : Replay D before σ t v ρ again after)
    (hw : (Departure.ahead ρ.kept σ t v).Abreast w σ' τ) (hcaught : ¬w.caught)
    (hφ : (Departure.flat ρ.kept σ σ').Abreast φ after σ'') (hv : again.Renamed φ.marks v') :
    (Departure.ahead ρ.kept σ t v).Abreast ⟨w.marks.catchUp ρ φ.marks, h.catchUp_oneToOne hw hcaught hφ, True⟩
      (σ''.fill t v') τ := by
  have hflat : ∀ {cell : Nat}, cell < σ'.cells.size → σ''.memo? cell = σ'.memo? cell := hφ.memo?_flat hw.left
  have hcell' : t.1 < σ'.cells.size := hw.left.has (m := .thunk t) h.cell_lt
  have hcell : t.1 < σ''.cells.size := hφ.right.has (m := .thunk t) hcell'
  have hempty : σ''.memo? t.1 = none := (hflat hcell').trans (hw.lagging hcaught t.1 rfl)
  have hgrows : σ'.GrowsTo .byNeed (σ''.fill t v') := hφ.right.trans (.fill v' hempty)
  have hvalue : v'.Renamed (w.marks.catchUp ρ φ.marks) v := (h.value.comp hv).symm.mono fun _ _ => Or.inr
  have hle : w.marks ≤ w.marks.catchUp ρ φ.marks := fun _ _ => Or.inl
  constructor
  case start => exact hw.start.trans hle
  case both =>
    rintro m m' (hm | ⟨n, hn, hnm⟩)
    · exact (hw.both hm).grow hgrows (.refl _ τ)
    · have hright : σ.GrowsTo .byNeed τ := (Store.GrowsTo.fill v h.empty).trans hw.right
      exact ((h.meets.both hn).comp (hφ.both hnm)).symm.grow (.fill v' hempty) hright
  case memo =>
    -- a pair of before
    have hold : ∀ {u u' : Thunk}, w.marks (.thunk u) (.thunk u') →
        Option.Rel (Value.Renamed (w.marks.catchUp ρ φ.marks)) ((σ''.fill t v').memo? u.1) (τ.memo? u'.1) := by
      intro u u' hu
      rw [Store.fill, Store.memo?_fill hcell]
      by_cases hsame : t.1 = u.1
      · obtain ⟨_, heq⟩ := w.oneToOne (hw.start _ _ ⟨rfl, h.self⟩) hu (Or.inl (congrArg Sum.inr hsame))
        cases heq
        rw [if_pos hsame, h.memo?_ahead hw]
        exact .some hvalue
      · rw [if_neg hsame, hflat (hw.both hu).left]
        have hrel := hw.memo hu fun hmem => absurd hmem.symm hsame
        generalize σ'.memo? u.1 = held at hrel ⊢
        generalize τ.memo? u'.1 = held' at hrel ⊢
        cases hrel with
        | none => exact .none
        | some hrenamed => exact .some (hrenamed.mono hle)
    rintro u u' (hu | hu) _
    · exact hold hu
    · by_cases hhas : σ'.Has (.thunk u)
      · obtain ⟨heq, hkept⟩ := h.eq_of_has hφ hu hhas
        cases heq
        exact hold (hw.start _ _ ⟨rfl, hkept⟩)
      · have hne : t.1 ≠ u.1 := fun hsame => hhas (lt_of_eq_of_lt hsame.symm hcell')
        rw [Store.fill, Store.memo?_fill hcell, if_neg hne]
        exact h.rel_memo?_of_new hw hcaught hφ hu hhas
  case lagging => exact fun hnot => absurd trivial hnot
  case left => exact hw.left.trans hgrows
  case right => exact hw.right
  case left_old =>
    rintro m m' (hm | hm) hhas
    · exact hw.left_old hm hhas
    · exact h.eq_of_has hφ hm (hw.left.has hhas)
  case right_old => exact fun hnot => absurd trivial hnot
  case filled_old => exact fun hnot => absurd trivial hnot
  case catches => exact id

/-- **The left run catches up**, where it evaluates the thunk whose cell is filled on the right. -/
theorem exists_caught (h : Replay D before σ t v ρ again after) (s : CallStack)
    (hw : (Departure.ahead ρ.kept σ t v).Abreast w σ' τ) (hcaught : ¬w.caught) :
    σ'.memo? t.1 = none ∧ ∃ w' v' σ'', w ≤ w' ∧ Evaluates ⟨none, .byNeed⟩ t.2.1 t.2.2 s σ' (.done v' σ'') ∧
      σ''.memo? t.1 = none ∧ (Departure.ahead ρ.kept σ t v).Abreast w' (σ''.fill t v') τ ∧ v'.Renamed w'.marks v := by
  obtain ⟨φ, v', σ'', heval, hφ, hv⟩ :=
    flat_run h.coherent hw.left (fun m hm => h.meets.fixes m (h.captured m hm)) (h.evaluates s) h.flat
  have hmemo : σ'.memo? t.1 = none := hw.lagging hcaught t.1 rfl
  have hmemo' : σ''.memo? t.1 = none :=
    (hφ.memo?_flat hw.left (hw.left.has (m := .thunk t) h.cell_lt)).trans hmemo
  refine ⟨hmemo, _, v', σ'', ?_, heval, hmemo', h.abreast_catchUp hw hcaught hφ hv, ?_⟩
  · exact ⟨fun _ _ => Or.inl, fun _ => trivial⟩
  · exact (h.value.comp hv).symm.mono fun _ _ => Or.inr

/-- The cell that is filled on the right belongs to the thunk on either side. -/
theorem eq_thunk (h : Replay D before σ t v ρ again after) (hw : (Departure.ahead ρ.kept σ t v).Abreast w σ' τ)
    {u u' : Thunk} (hu : w.marks (.thunk u) (.thunk u')) (hcell : u.1 = t.1) : u = t ∧ u' = t := by
  obtain ⟨heq, heq'⟩ := w.oneToOne (hw.start _ _ ⟨rfl, h.self⟩) hu (Or.inl (congrArg Sum.inr hcell.symm))
  cases heq
  cases heq'
  exact ⟨rfl, rfl⟩

/-- The left run forces the cell that is filled on the right. -/
theorem catch_up (h : Replay D before σ t v ρ again after) (limit : Option Nat) (n : Nat) {u u' : Thunk} (s : CallStack)
    (hw : (Departure.ahead ρ.kept σ t v).Abreast w σ' τ) (hu : w.marks (.thunk u) (.thunk u')) (hcell : u.1 = t.1)
    (hcaught : ¬w.caught) :
    (abreast limit (Departure.ahead ρ.kept σ t v)).simulation.Follows w
      (abreast limit (Departure.ahead ρ.kept σ t v)).value
      ((interpreter ⟨limit, .byNeed⟩ n).force .byNeed u.1 u.2.1 u.2.2 s σ')
      fun k => (interpreter ⟨limit, .byNeed⟩ k).force .byNeed u'.1 u'.2.1 u'.2.2 s τ := by
  obtain ⟨rfl, rfl⟩ := h.eq_thunk hw hu hcell
  obtain ⟨hmemo, w', v', σ'', hle, heval, hmemo', hnext, hv⟩ := h.exists_caught s hw hcaught
  simp only [force_of_none _ _ _ s hmemo, force_of_some _ _ _ s (h.memo?_ahead hw), bind_apply]
  rcases heval.eval_within limit n with hn | ⟨f, σ₁, hn, hfatal⟩ | hn
  · rw [show (interpreter ⟨limit, .byNeed⟩ n).eval u'.2.1 u'.2.2 s σ' = _ from hn]
    exact .excused .outOfFuel
  · rw [show (interpreter ⟨limit, .byNeed⟩ n).eval u'.2.1 u'.2.2 s σ' = _ from hn]
    exact .excused (.pardoned ⟨trivial, hfatal⟩)
  · rw [show (interpreter ⟨limit, .byNeed⟩ n).eval u'.2.1 u'.2.2 s σ' = _ from hn]
    simp only [memoize, hmemo']
    exact .done hle hv hnext (Eventually.of_forall fun _ => rfl)

/-- The right run forces the cell that is filled on its side. -/
theorem catch_up_flip (h : Replay D before σ t v ρ again after) (n : Nat) {u u' : Thunk} (s : CallStack)
    (hw : (Departure.ahead ρ.kept σ t v).Abreast w σ' τ) (hu : w.marks (.thunk u) (.thunk u')) (hcell : u.1 = t.1)
    (hcaught : ¬w.caught) :
    (abreast none (Departure.ahead ρ.kept σ t v)).flip.simulation.Follows w
      (abreast none (Departure.ahead ρ.kept σ t v)).flip.value
      ((interpreter ⟨none, .byNeed⟩ n).force .byNeed u'.1 u'.2.1 u'.2.2 s τ)
      fun k => (interpreter ⟨none, .byNeed⟩ k).force .byNeed u.1 u.2.1 u.2.2 s σ' := by
  obtain ⟨rfl, rfl⟩ := h.eq_thunk hw hu hcell
  obtain ⟨hmemo, w', v', σ'', hle, heval, hmemo', hnext, hv⟩ := h.exists_caught s hw hcaught
  simp only [force_of_none _ _ _ s hmemo, force_of_some _ _ _ s (h.memo?_ahead hw), bind_apply]
  refine .done hle hv.symm hnext (heval.eventually.mono fun k hk => ?_)
  rw [show (interpreter ⟨none, .byNeed⟩ k).eval u'.2.1 u'.2.2 s σ' = _ from hk]
  simp only [memoize, hmemo']
  rfl

/-- **Filling the cell of a thunk with its value makes no difference.** -/
theorem warms (h : Replay D before σ t v ρ again after) : Warms .byNeed D σ (σ.fill t v) := by
  let d := Departure.ahead ρ.kept σ t v
  have hgrows : σ.GrowsTo .byNeed (σ.fill t v) := .fill v h.empty
  have hstart : d.Abreast (Stage.on ρ.kept h.coherent.oneToOne) σ (σ.fill t v) := by
    refine d.abreast_on rfl h.coherent (fun m hm => hgrows.has (h.coherent.has m hm)) ?_ fun u _ hne => ?_
    · rintro _ rfl
      exact h.empty
    · show (σ.fill t v).memo? u.1 = σ.memo? u.1
      rw [Store.fill, Store.memo?_fill h.cell_lt, if_neg fun hsame => hne hsame.symm]
  refine warms_of_abreast (d := d) rfl h.coherent.oneToOne h.meets.fixes hstart ?_ hgrows.filled (fun _ => rfl)
    (fun limit n => ?_) fun n => ?_
  · rintro _ rfl
    refine ⟨h.cell_lt, ?_⟩
    show (σ.fill t v).memo? t.1 ≠ none
    rw [h.memo?_ahead hstart]
    exact nofun
  · have hI := interprets_abreast limit d ∅ (fun n w σ τ t t' s hw ht hmem hcaught _ => by
      rw [guarded_empty]
      exact h.catch_up limit n s hw ht hmem hcaught) n
    rw [guarded_empty] at hI
    exact hI
  · exact interprets_flip none d (fun n w σ τ t t' s hw ht hmem hcaught => h.catch_up_flip n s hw ht hmem hcaught) n

end Replay

end CatchUp

end Treewalk
