import Treewalk.Proofs.Invariants
import Treewalk.Proofs.Tracking

/-!
# No thunk is forced while it is being forced

Nothing that the evaluation of a thunk reaches leads back to the thunk's own cell. To say so, cells are ranked
(`Ranks`): whatever a thunk has captured, and whatever its value reaches, is of lower rank than its cell
(`Store.Ranked`). While a cell is being forced, only cells below it are read, filled or made; there is room for them
because ranks are dense (`exists_rank`).

A run may be in `Company`: others act on the store whenever the run is about to look at a memo cell, since in between
it sees nothing of what they do. What they do depends on the store, so it may be something else each time.

An evaluator can watch itself (`vigilant`). It remembers the cells that it is forcing and raises an alarm if it forces
one of them again, or if the value that a forcing gives is not what the cell keeps. Where it is alone, a cell must also
stay empty until its forcing ends, be it with a value or a failure, and what it keeps must be the value just computed.
Ranks show that the alarm is never raised (`interprets_vigilant`), also where the run goes on forever.
-/

namespace Treewalk

open Run Filter

/-! ## Ranks -/

section Ranks

/-- The ranks of some memo cells. -/
structure Ranks where
  rank : Nat → Option ℚ

instance : Preorder Ranks where
  le w w' := ∀ ⦃cell p⦄, w.rank cell = some p → w'.rank cell = some p
  le_refl _ _ _ h := h
  le_trans _ _ _ h h' _ _ hp := h' (h hp)

/-- The cell of a mark is of lower rank than `p`, if it has one. -/
def Mark.RankedBelow (w : Ranks) (p : ℚ) : Mark → Prop
  | .ident _ => True
  | .thunk t => ∃ q, w.rank t.1 = some q ∧ q < p

/-- The cell of a mark is of lower rank than `p`, and what its thunk has captured is of still lower rank. -/
def Mark.Below (w : Ranks) (p : ℚ) : Mark → Prop
  | .ident _ => True
  | .thunk t => ∃ q, w.rank t.1 = some q ∧ q < p ∧ ∀ m ∈ Env.marks t.2.2, m.RankedBelow w q

variable {w w' : Ranks} {p q : ℚ} {m : Mark}

theorem Mark.RankedBelow.mono (hw : w ≤ w') (hp : p ≤ q) (h : m.RankedBelow w p) : m.RankedBelow w' q := by
  cases m with
  | ident i => trivial
  | thunk t =>
    obtain ⟨q', hrank, hlt⟩ := h
    exact ⟨q', hw hrank, hlt.trans_le hp⟩

theorem Mark.Below.mono (hw : w ≤ w') (hp : p ≤ q) (h : m.Below w p) : m.Below w' q := by
  cases m with
  | ident i => trivial
  | thunk t =>
    obtain ⟨q', hrank, hlt, henv⟩ := h
    exact ⟨q', hw hrank, hlt.trans_le hp, fun m hm => (henv m hm).mono hw le_rfl⟩

theorem Mark.Below.rankedBelow (h : m.Below w p) : m.RankedBelow w p := by
  cases m with
  | ident i => trivial
  | thunk t =>
    obtain ⟨q, hrank, hlt, _⟩ := h
    exact ⟨q, hrank, hlt⟩

/-- What is below `q` and of lower rank than `p` is below `p`. -/
theorem Mark.Below.lower (h : m.Below w q) (hp : m.RankedBelow w p) : m.Below w p := by
  cases m with
  | ident i => trivial
  | thunk t =>
    obtain ⟨q', hrank, _, henv⟩ := h
    obtain ⟨q'', hrank', hlt⟩ := hp
    rw [hrank] at hrank'
    cases hrank'
    exact ⟨q', hrank, hlt, henv⟩

/-- Between some cells below `p` and `p` itself there is room for one more. -/
theorem exists_rank {ms : List Mark} (h : ∀ m ∈ ms, m.RankedBelow w p) : ∃ q < p, ∀ m ∈ ms, m.RankedBelow w q := by
  induction ms with
  | nil => exact ⟨p - 1, sub_one_lt p, fun _ => nofun⟩
  | cons m ms ih =>
    obtain ⟨hm, hms⟩ := List.forall_mem_cons.1 h
    obtain ⟨q, hq, hbelow⟩ := ih hms
    cases m with
    | ident i => exact ⟨q, hq, List.forall_mem_cons.2 ⟨trivial, hbelow⟩⟩
    | thunk t =>
      obtain ⟨q', hrank, hq'⟩ := hm
      obtain ⟨q'', hlow, hhigh⟩ := exists_between (max_lt hq hq')
      obtain ⟨hlow, hlow'⟩ := max_lt_iff.1 hlow
      exact ⟨q'', hhigh, List.forall_mem_cons.2 ⟨⟨q', hrank, hlow'⟩, fun m hm => (hbelow m hm).mono le_rfl hlow.le⟩⟩

end Ranks

/-! ## Ranked stores -/

section Stores

/-- The values in filled cells are below their cells. -/
structure Store.Ranked (w : Ranks) (σ : Store) : Prop where
  allocated : ∀ {cell q}, w.rank cell = some q → cell < σ.cells.size
  filled : ∀ {cell v}, σ.memo? cell = some v → ∃ q, w.rank cell = some q ∧ ∀ m ∈ v.marks, m.Below w q

/-- A run that was started in the store `before` has kept the cells that were filled. The cells that it is forcing are
of no lower rank than `p`, and empty where the run is alone. -/
structure Store.RankedWithin (alone : Prop) (w : Ranks) (p : ℚ) (forcing : List Nat) (σ before : Store) : Prop
    extends σ.Ranked w where
  kept : ∀ {cell v}, before.memo? cell = some v → σ.memo? cell = some v
  forcing : ∀ cell ∈ forcing, (alone → σ.memo? cell = none) ∧ ∃ q, w.rank cell = some q ∧ p ≤ q

variable {alone : Prop} {before : Store} {w w' : Ranks} {p q : ℚ} {forcing : List Nat} {σ : Store} {cell : Nat}
  {e : Expr} {r : Env} {v : Value}

/-- The ranks with one for a new cell. -/
def Ranks.add (w : Ranks) (cell : Nat) (q : ℚ) : Ranks :=
  ⟨Function.update w.rank cell (some q)⟩

theorem Store.Ranked.le_add (h : σ.Ranked w) (q : ℚ) : w ≤ w.add σ.cells.size q := by
  intro cell q' hrank
  show Function.update w.rank σ.cells.size (some q) cell = some q'
  rw [Function.update_of_ne (h.allocated hrank).ne, hrank]

theorem Store.Ranked.push (h : σ.Ranked w) (q : ℚ) :
    { σ with cells := σ.cells.push none }.Ranked (w.add σ.cells.size q) where
  allocated {cell q'} hrank := by
    rw [Array.size_push]
    by_cases hcell : cell = σ.cells.size
    · exact hcell ▸ Nat.lt_succ_self _
    · replace hrank : Function.update w.rank σ.cells.size (some q) cell = some q' := hrank
      rw [Function.update_of_ne hcell] at hrank
      exact Nat.lt_succ_of_lt (h.allocated hrank)
  filled hv := by
    rw [Store.memo?_push] at hv
    obtain ⟨q', hrank, hbelow⟩ := h.filled hv
    exact ⟨q', h.le_add q hrank, fun m hm => (hbelow m hm).mono (h.le_add q) le_rfl⟩

/-- Keeping a value in a cell above it. -/
theorem Store.Ranked.fill (h : σ.Ranked w) (hrank : w.rank cell = some q) (hv : ∀ m ∈ v.marks, m.Below w q) :
    { σ with cells := σ.cells.set! cell (some v) }.Ranked w where
  allocated hrank := by
    rw [Array.set!_eq_setIfInBounds, Array.size_setIfInBounds]
    exact h.allocated hrank
  filled {other u} hu := by
    rw [Store.memo?_set] at hu
    split at hu
    · next heq =>
      cases hu
      exact ⟨q, heq.1 ▸ hrank, hv⟩
    · exact h.filled hu

/-! ### While cells are being forced -/

/-- A run that begins forces no cell. -/
theorem Store.Ranked.within (h : σ.Ranked w) : σ.RankedWithin alone w p [] σ where
  toRanked := h
  kept := id
  forcing _ := nofun

theorem Store.RankedWithin.push (h : σ.RankedWithin alone w p forcing before) (q : ℚ) :
    { σ with cells := σ.cells.push none }.RankedWithin alone (w.add σ.cells.size q) p forcing before where
  toRanked := h.toRanked.push q
  kept hv := (Store.memo?_push σ _).trans (h.kept hv)
  forcing cell hcell := by
    obtain ⟨hempty, q', hrank, hle⟩ := h.forcing cell hcell
    rw [Store.memo?_push]
    exact ⟨hempty, q', h.le_add q hrank, hle⟩

/-- A cell of lower rank is not being forced. -/
theorem Store.RankedWithin.not_forcing (h : σ.RankedWithin alone w p forcing before) (hrank : w.rank cell = some q)
    (hq : q < p) : cell ∉ forcing := by
  intro hcell
  obtain ⟨_, q', hrank', hle⟩ := h.forcing cell hcell
  rw [hrank] at hrank'
  cases hrank'
  exact absurd hq (not_lt.2 hle)

/-- Forcing one more cell. -/
theorem Store.RankedWithin.enter (h : σ.RankedWithin alone w p forcing before) (hempty : σ.memo? cell = none)
    (hrank : w.rank cell = some q) (hq : q < p) : σ.RankedWithin alone w q (cell :: forcing) before where
  toRanked := h.toRanked
  kept := h.kept
  forcing := by
    refine List.forall_mem_cons.2 ⟨⟨fun _ => hempty, q, hrank, le_rfl⟩, fun other hother => ?_⟩
    obtain ⟨hempty', q', hrank', hle⟩ := h.forcing other hother
    exact ⟨hempty', q', hrank', hq.le.trans hle⟩

/-- The forcing of a cell is over, and the cells around it are still being forced. -/
theorem Store.RankedWithin.leave {w₀ : Ranks} {σ₀ : Store} (h₀ : σ₀.RankedWithin alone w₀ p forcing before)
    (hw : w₀ ≤ w) (h : σ.RankedWithin alone w q (cell :: forcing) before) :
    σ.RankedWithin alone w p forcing before where
  toRanked := h.toRanked
  kept := h.kept
  forcing other hother := by
    obtain ⟨_, q', hrank, hle⟩ := h₀.forcing other hother
    exact ⟨(h.forcing other (List.mem_cons_of_mem _ hother)).1, q', hw hrank, hle⟩

theorem Store.RankedWithin.fill (h : σ.RankedWithin alone w p forcing before) (hempty : σ.memo? cell = none)
    (hrank : w.rank cell = some q) (hq : q < p) (hv : ∀ m ∈ v.marks, m.Below w q) :
    { σ with cells := σ.cells.set! cell (some v) }.RankedWithin alone w p forcing before where
  toRanked := h.toRanked.fill hrank hv
  kept {other u} hu := by
    rw [Store.memo?_set, if_neg, h.kept hu]
    rintro ⟨rfl, _⟩
    rw [h.kept hu] at hempty
    cases hempty
  forcing other hother := by
    obtain ⟨hother', habove⟩ := h.forcing other hother
    refine ⟨fun halone => ?_, habove⟩
    rw [Store.memo?_set, if_neg, hother' halone]
    rintro ⟨rfl, _⟩
    exact h.not_forcing hrank hq hother

/-- Keeping a value in a cell that may be filled already. -/
theorem Store.RankedWithin.memoize (h : σ.RankedWithin alone w p forcing before) (hrank : w.rank cell = some q)
    (hq : q < p) (hv : ∀ m ∈ v.marks, m.Below w q) :
    ∃ kept τ, Run.memoize cell v σ = .done kept τ ∧ τ.RankedWithin alone w p forcing before ∧
      ∀ m ∈ kept.marks, m.Below w q := by
  unfold Run.memoize
  cases hmemo : σ.memo? cell with
  | none => exact ⟨v, _, rfl, h.fill hmemo hrank hq hv, hv⟩
  | some held =>
    obtain ⟨q', hrank', hheld⟩ := h.filled hmemo
    rw [hrank] at hrank'
    cases hrank'
    exact ⟨held, σ, rfl, h, hheld⟩

end Stores

/-! ## Company -/

section Company

/-- What others do to the store while a run goes on. They may make cells and fill empty ones, but what is in a cell
stays there, and what they do keeps the store ranked, for all ranks that extend `w`. -/
structure Company (w : Ranks) where
  others : Store → Store
  notes : ∀ {σ : Store}, σ.testedIdentity = true → (others σ).testedIdentity = true
  keeps : ∀ {w' : Ranks} {σ : Store} {cell : Nat} {v : Value}, w ≤ w' → σ.Ranked w' → σ.memo? cell = some v →
    (others σ).memo? cell = some v
  ranked : ∀ {w' : Ranks} {σ : Store}, w ≤ w' → σ.Ranked w' → ∃ w'', w' ≤ w'' ∧ (others σ).Ranked w''

/-- Nobody else does anything. -/
def Company.alone (w : Ranks) : Company w where
  others := id
  notes := id
  keeps _ _ := id
  ranked _ h := ⟨_, le_rfl, h⟩

variable {w₀ w : Ranks} {p : ℚ} {forcing : List Nat} {before σ : Store} (company : Company w₀)

/-- A run is where it was when others have acted. -/
theorem Company.rankedWithin (hw : w₀ ≤ w) (h : σ.RankedWithin (company.others = id) w p forcing before) :
    ∃ w', w ≤ w' ∧ (company.others σ).RankedWithin (company.others = id) w' p forcing before := by
  obtain ⟨w', hw', hranked⟩ := company.ranked hw h.toRanked
  refine ⟨w', hw', hranked, fun hv => company.keeps hw h.toRanked (h.kept hv), fun cell hcell => ?_⟩
  obtain ⟨hempty, q, hrank, hle⟩ := h.forcing cell hcell
  refine ⟨fun halone => ?_, q, hw' hrank, hle⟩
  rw [halone]
  exact hempty halone

/-- A run in company that stays below `p` while some cells are being forced, on its own track. -/
def ranked (before : Store) (config : Config) (p : ℚ) (forcing : List Nat) : Tracking Ranks where
  config := config
  marks w m m' := m = m' ∧ m.Below w p
  store w σ τ := (w₀ ≤ w ∧ σ.RankedWithin (company.others = id) w p forcing before) ∧ σ = τ
  mono := by
    rintro w w' hw m _ ⟨rfl, hm⟩
    exact ⟨rfl, hm.mono hw le_rfl⟩
  ident_unique := by
    rintro w i i' j j' ⟨⟨⟩, -⟩ ⟨⟨⟩, -⟩
    exact Iff.rfl
  fresh := by
    rintro w σ _ ⟨⟨hw, hσ⟩, rfl⟩
    exact ⟨w, le_rfl, ⟨rfl, trivial⟩, ⟨hw, ⟨hσ.allocated, hσ.filled⟩, hσ.kept, hσ.forcing⟩, rfl⟩
  note := by
    rintro w σ _ tested ⟨⟨hw, hσ⟩, rfl⟩
    exact ⟨⟨hw, ⟨hσ.allocated, hσ.filled⟩, hσ.kept, hσ.forcing⟩, rfl⟩
  alloc := by
    rintro w σ _ r r' e ⟨⟨hw, hσ⟩, rfl⟩ hr
    obtain rfl := hr.eq fun _ _ h => h.1
    have hbelow : ∀ m ∈ Env.marks r, m.RankedBelow w p := fun m hm => (Env.renamed_self_iff.1 hr m hm).2.rankedBelow
    obtain ⟨q, hq, henv⟩ := exists_rank hbelow
    have hadd := hσ.le_add q
    refine ⟨w.add σ.cells.size q, hadd, ⟨rfl, q, ?_, hq, fun m hm => (henv m hm).mono hadd le_rfl⟩,
      ⟨hw.trans hadd, hσ.push q⟩, rfl⟩
    exact Function.update_self ..

theorem ranked_exact (before : Store) (config : Config) (p : ℚ) (forcing : List Nat) (w : Ranks) :
    ((ranked company before config p forcing).marks w).Exact :=
  fun _ _ h => h.1

end Company

/-! ## Vigilance -/

section Vigilance

/-- Others act on the store. -/
def Run.meanwhile (others : Store → Store) : Run Unit :=
  fun store => .done () (others store)

variable (check : (Store → Prop) → Run Unit) (others : Store → Store)

/-- Keeps the value of a thunk. What is kept must be in the cell then and, where nobody else acts, be that value. -/
def keepOnce (cell : Nat) (v : Value) : Run Value := do
  meanwhile others
  let kept ← memoize cell v
  check fun store => store.memo? cell = some kept ∧ (others = id → kept = v)
  return kept

/-- Forces a thunk whose cell must not be among those that are being forced. Where nobody else acts, the cell must be
empty until the evaluation by `I` ends. -/
def Interpreter.forceOnce (I : Interpreter) (forcing : List Nat) (cell : Nat) (e : Expr) (env : Env)
    (stack : CallStack) : Run Value := do
  meanwhile others
  match ← memo? cell with
  | some v => return v
  | none =>
    check fun _ => cell ∉ forcing
    let result ← (I.eval e env stack).attempt
    check fun store => others = id → store.memo? cell = none
    keepOnce check others cell (← ofResult result)

/-- The evaluator that checks each forcing, given the cells that are being forced around it. -/
def vigilant (config : Config) : Nat → List Nat → Interpreter
  | 0, _ => interpreter config 0
  | n + 1, forcing => (vigilant config n forcing).nextWith config fun cell e env stack =>
    match config.strategy with
    | .byName => (vigilant config n forcing).eval e env stack
    | .byNeed => (vigilant config n (cell :: forcing)).forceOnce check others forcing cell e env stack

/-- The evaluator with the given fuel, where others act on the store. -/
def amid (config : Config) (n : Nat) : Interpreter :=
  vigilant (fun _ => pure ()) others config n []

/-- A way to check that lets pass what is right. -/
structure Lenient : Prop where
  pass : ∀ {ok : Store → Prop} {store : Store}, ok store → check ok store = .done () store
  remembers : ∀ ok, (check ok).Remembers

theorem lenient_check (alarm : Failure) : Lenient (Run.check alarm) where
  pass h := if_pos h
  remembers ok := ⟨fun store h => by
    unfold Run.check
    split <;> exact h⟩

/-- Checks that are not made. -/
theorem lenient_pure : Lenient fun _ => pure () :=
  ⟨fun _ => rfl, fun _ => inferInstance⟩

variable {check others} {I : Interpreter} {forcing : List Nat} {cell : Nat} {e : Expr} {env : Env} {stack : CallStack}
  {store after : Store} {v : Value}

/-- The alarm is raised where a cell is forced while it is being forced, so the checks are not idle. -/
theorem forceOnce_of_mem (alarm : Failure) (hempty : (others store).memo? cell = none) (hforcing : cell ∈ forcing) :
    I.forceOnce (Run.check alarm) others forcing cell e env stack store = .failed alarm (others store) := by
  have hraised : Run.check alarm (fun _ => cell ∉ forcing) (others store) = .failed alarm (others store) :=
    if_neg (not_not.2 hforcing)
  simp only [Interpreter.forceOnce, bind_apply, Run.meanwhile, Run.memo?, hempty, hraised]

/-- A cell that is filled is read, with no check. -/
theorem forceOnce_of_some (hmemo : (others store).memo? cell = some v) :
    I.forceOnce check others forcing cell e env stack store = .done v (others store) := by
  simp only [Interpreter.forceOnce, bind_apply, Run.meanwhile, Run.memo?, hmemo]
  rfl

/-- What is kept in a cell that exists is there. -/
theorem memo?_of_memoize {kept : Value} (hcell : cell < store.cells.size)
    (h : memoize cell v store = .done kept after) : after.memo? cell = some kept := by
  unfold memoize at h
  split at h
  · next hheld =>
    cases h
    exact hheld
  · cases h
    rw [Store.memo?_set, if_pos ⟨rfl, hcell⟩]

/-- A value is kept as usual, after what others have done. -/
theorem keepOnce_eq (hcheck : Lenient check) (hempty : others = id → store.memo? cell = none)
    (hcell : cell < (others store).cells.size) :
    keepOnce check others cell v store = memoize cell v (others store) := by
  simp only [keepOnce, bind_apply, meanwhile]
  cases hkept : memoize cell v (others store) with
  | done kept after =>
    have hpass : check (fun store => store.memo? cell = some kept ∧ (others = id → kept = v)) after =
        .done () after := by
      refine hcheck.pass ⟨memo?_of_memoize hcell hkept, ?_⟩
      rintro rfl
      simp only [memoize, id_eq, hempty rfl] at hkept
      cases hkept
      rfl
    simp only [hpass]
    rfl
  | failed | outOfFuel => rfl

theorem memo?_of_keepOnce {alarm : Failure} {kept : Value}
    (h : keepOnce (Run.check alarm) others cell v store = .done kept after) : after.memo? cell = some kept := by
  obtain ⟨_, σ, -, h⟩ := exists_of_bind_done h
  obtain ⟨held, τ, -, h⟩ := exists_of_bind_done h
  obtain ⟨_, υ, hcheck, h⟩ := exists_of_bind_done h
  cases h
  unfold Run.check at hcheck
  split at hcheck
  · next hok =>
    cases hcheck
    exact hok.1
  · cases hcheck

/-- A forcing that raises no alarm leaves the value that it gives in the cell, whoever has computed it. -/
theorem memo?_of_forceOnce {alarm : Failure}
    (h : I.forceOnce (Run.check alarm) others forcing cell e env stack store = .done v after) :
    after.memo? cell = some v := by
  obtain ⟨_, σ, -, h⟩ := exists_of_bind_done h
  obtain ⟨held, τ, hheld, h⟩ := exists_of_bind_done h
  cases held with
  | some u =>
    obtain ⟨hu, rfl⟩ := Outcome.done.inj hheld
    obtain ⟨rfl, rfl⟩ := Outcome.done.inj h
    exact hu
  | none =>
    obtain ⟨_, _, -, h⟩ := exists_of_bind_done h
    obtain ⟨result, _, -, h⟩ := exists_of_bind_done h
    obtain ⟨_, _, -, h⟩ := exists_of_bind_done h
    obtain ⟨u, _, -, h⟩ := exists_of_bind_done h
    exact memo?_of_keepOnce h

section None

variable (hcheck : Lenient check) (hmemo : (others store).memo? cell = none) (hforcing : cell ∉ forcing)
include hcheck hmemo hforcing

theorem forceOnce_of_outOfFuel (heval : I.eval e env stack (others store) = .outOfFuel) :
    I.forceOnce check others forcing cell e env stack store = .outOfFuel := by
  have hfirst : check (fun _ => cell ∉ forcing) (others store) = .done () (others store) := hcheck.pass hforcing
  simp only [Interpreter.forceOnce, bind_apply, Run.meanwhile, Run.memo?, hmemo, hfirst, Run.attempt, heval]

/-- A failure is passed on, and nothing is kept. -/
theorem forceOnce_of_failed {f : Failure} (hempty : others = id → after.memo? cell = none)
    (heval : I.eval e env stack (others store) = .failed f after) :
    I.forceOnce check others forcing cell e env stack store = .failed f after := by
  have hfirst : check (fun _ => cell ∉ forcing) (others store) = .done () (others store) := hcheck.pass hforcing
  have hlast : check (fun store => others = id → store.memo? cell = none) after = .done () after := hcheck.pass hempty
  simp only [Interpreter.forceOnce, bind_apply, Run.meanwhile, Run.memo?, hmemo, hfirst, Run.attempt, heval, hlast]
  rfl

/-- A value is kept, unless others have filled the cell. -/
theorem forceOnce_of_done (hempty : others = id → after.memo? cell = none) (hcell : cell < (others after).cells.size)
    (heval : I.eval e env stack (others store) = .done v after) :
    I.forceOnce check others forcing cell e env stack store = memoize cell v (others after) := by
  have hfirst : check (fun _ => cell ∉ forcing) (others store) = .done () (others store) := hcheck.pass hforcing
  have hlast : check (fun store => others = id → store.memo? cell = none) after = .done () after := hcheck.pass hempty
  simp only [Interpreter.forceOnce, bind_apply, Run.meanwhile, Run.memo?, hmemo, hfirst, Run.attempt, heval, hlast]
  exact keepOnce_eq hcheck hempty hcell

end None

/-- A failure that is a result for a moment only. -/
theorem attempt_bind_ofResult {α β : Type} (m : Run α) (f : α → Run β) :
    (m.attempt >>= fun result => ofResult result >>= f) = m >>= f := by
  funext store
  simp only [bind_apply, Run.attempt]
  cases m store <;> rfl

theorem meanwhile_id_bind {α : Type} (f : Unit → Run α) : (meanwhile id >>= f) = f () := rfl

/-- Without checks and with nobody else, the evaluator is the usual one. -/
theorem vigilant_pure (config : Config) :
    ∀ n forcing, vigilant (fun _ => pure ()) id config n forcing = interpreter config n
  | 0, _ => rfl
  | n + 1, forcing => by
    have hforce : ∀ forcing cell e env stack,
        (interpreter config n).forceOnce (fun _ => pure ()) id forcing cell e env stack =
          (interpreter config n).force .byNeed cell e env stack := by
      intro forcing cell e env stack
      have hkeep : keepOnce (fun _ => pure ()) id cell = memoize cell := by
        funext v
        exact bind_pure (memoize cell v)
      simp only [Interpreter.forceOnce, meanwhile_id_bind, hkeep]
      refine bind_congr fun held => ?_
      cases held with
      | some v => rfl
      | none => exact attempt_bind_ofResult _ _
    rw [interpreter_succ_eq_nextWith]
    simp only [vigilant, vigilant_pure config n, hforce]
    congr

/-- By name no cell is looked at, so it does not matter who else acts. -/
theorem vigilant_byName {config : Config} (hname : config.strategy = .byName) :
    ∀ n forcing, vigilant check others config n forcing = interpreter config n
  | 0, _ => rfl
  | n + 1, forcing => by
    rw [interpreter_succ_eq_nextWith]
    simp only [vigilant, vigilant_byName hname n, hname]
    congr

theorem remembers_forceOnce (hcheck : Lenient check) [(meanwhile others).Remembers] (I : Interpreter) [I.Remembers]
    (forcing : List Nat) (cell : Nat) (e : Expr) (env : Env) (stack : CallStack) :
    (I.forceOnce check others forcing cell e env stack).Remembers := by
  have := hcheck.remembers
  have (v : Value) : (keepOnce check others cell v).Remembers := by
    unfold keepOnce
    infer_instance
  refine @Remembers.bind _ _ _ _ inferInstance fun _ => @Remembers.bind _ _ _ _ inferInstance fun held => ?_
  cases held <;> infer_instance

theorem remembers_vigilant (hcheck : Lenient check) [(meanwhile others).Remembers] (config : Config) :
    ∀ n forcing, (vigilant check others config n forcing).Remembers
  | 0, _ => remembers_interpreter config 0
  | n + 1, forcing => by
    have := remembers_vigilant hcheck config n
    have hforce : ∀ cell e env stack, Remembers (match config.strategy with
        | .byName => (vigilant check others config n forcing).eval e env stack
        | .byNeed => (vigilant check others config n (cell :: forcing)).forceOnce check others forcing cell e env
          stack) := by
      intro cell e env stack
      cases config.strategy with
      | byName => infer_instance
      | byNeed => exact remembers_forceOnce hcheck _ _ _ _ _ _
    exact inferInstanceAs (Interpreter.nextWith _ _ _).Remembers

end Vigilance

/-! ## The alarm is never raised -/

section Interprets

variable {check check' : (Store → Prop) → Run Unit} {w₀ : Ranks} (company : Company w₀) {before : Store}
  {config : Config} {n : Nat} {p : ℚ} {forcing : List Nat}

instance : (meanwhile company.others).Remembers :=
  ⟨fun _ => company.notes⟩

instance : (amid company.others config n).Remembers :=
  remembers_vigilant lenient_pure config n []

/-- Forcing a thunk keeps ranks, with whatever checks, if evaluation does. -/
theorem simulates_forceOnce (hcheck : Lenient check) (hcheck' : Lenient check')
    (hI : ∀ p forcing, (ranked company before config p forcing).Interprets
      (vigilant check company.others config n forcing) fun _ => vigilant check' company.others config n forcing)
    {w : Ranks} {cell : Nat} {e : Expr} {r : Env} {s : CallStack} (hcell : (Mark.thunk (cell, e, r)).Below w p)
    (hr : Env.Renamed ((ranked company before config p forcing).marks w) r r) :
    (ranked company before config p forcing).Simulates w (ranked company before config p forcing).value
      ((vigilant check company.others config n (cell :: forcing)).forceOnce check company.others forcing cell e r s)
      fun _ => (vigilant check' company.others config n (cell :: forcing)).forceOnce check' company.others forcing cell
        e r s := by
  obtain ⟨q, hrank, hq, hcaptured⟩ := hcell
  rintro σ₀ _ ⟨⟨hw₀, hσ₀⟩, rfl⟩
  have hforcing : cell ∉ forcing := hσ₀.not_forcing hrank hq
  -- the others act, and the cell is looked at
  obtain ⟨w₁, hw₁, hσ⟩ := company.rankedWithin hw₀ hσ₀
  replace hw₀ := hw₀.trans hw₁
  replace hrank := hw₁ hrank
  cases hmemo : (company.others σ₀).memo? cell with
  | some v =>
    obtain ⟨q', hrank', hv⟩ := hσ.filled hmemo
    rw [hrank] at hrank'
    cases hrank'
    rw [forceOnce_of_some hmemo]
    refine .done hw₁ (Value.renamed_self_iff.2 fun m hm => ⟨rfl, (hv m hm).mono le_rfl hq.le⟩) ⟨⟨hw₀, hσ⟩, rfl⟩ ?_
    exact Eventually.of_forall fun _ => forceOnce_of_some hmemo
  | none =>
    -- the thunk is evaluated below its own cell
    have henv : Env.Renamed ((ranked company before config q (cell :: forcing)).marks w₁) r r := by
      refine Env.renamed_self_iff.2 fun m hm => ⟨rfl, ?_⟩
      have hbelow : m.Below w₁ p := ((Env.renamed_self_iff.1 hr m hm).2).mono hw₁ le_rfl
      exact hbelow.lower ((hcaptured m hm).mono hw₁ le_rfl)
    have hfollows := (hI q (cell :: forcing)).eval (e := e) rfl henv (rfl : s = s) _ _
      ⟨⟨hw₀, hσ.enter hmemo hrank hq⟩, rfl⟩
    generalize hout : (vigilant check company.others config n (cell :: forcing)).eval e r s (company.others σ₀) =
      outcome at hfollows
    cases outcome with
    | outOfFuel =>
      rw [forceOnce_of_outOfFuel hcheck hmemo hforcing hout]
      exact .excused .outOfFuel
    | done v σ₂ =>
      obtain ⟨w₂, v', _, hw₂, hv, ⟨⟨_, hσ₂⟩, rfl⟩, hdone⟩ := Tracking.exists_done hfollows
      obtain rfl := Value.Renamed.eq (ranked_exact company before config q _ w₂) hv
      have hempty := (hσ₂.forcing cell List.mem_cons_self).1
      -- the others act once more, and a value is kept
      replace hσ₂ := hσ.leave hw₂ hσ₂
      obtain ⟨w₃, hw₃, hσ₃⟩ := company.rankedWithin (hw₀.trans hw₂) hσ₂
      have hrank₃ := hw₃ (hw₂ hrank)
      have hbelow : ∀ m ∈ v.marks, m.Below w₃ q :=
        fun m hm => ((Value.renamed_self_iff.1 hv m hm).2).mono hw₃ le_rfl
      have hcell := hσ₃.allocated hrank₃
      obtain ⟨kept, τ, hkept, hτ, hbelow⟩ := hσ₃.memoize hrank₃ hq hbelow
      rw [forceOnce_of_done hcheck hmemo hforcing hempty hcell hout, hkept]
      refine .done (hw₁.trans (hw₂.trans hw₃))
        (Value.renamed_self_iff.2 fun m hm => ⟨rfl, (hbelow m hm).mono le_rfl hq.le⟩)
        ⟨⟨hw₀.trans (hw₂.trans hw₃), hτ⟩, rfl⟩ ?_
      exact hdone.mono fun _ hk => (forceOnce_of_done hcheck' hmemo hforcing hempty hcell hk).trans hkept
    | failed f σ₂ =>
      obtain ⟨w₂, _, hw₂, ⟨⟨_, hσ₂⟩, rfl⟩, hfailed⟩ := Tracking.exists_failed hfollows id
      have hempty := (hσ₂.forcing cell List.mem_cons_self).1
      rw [forceOnce_of_failed hcheck hmemo hforcing hempty hout]
      exact .failed (hw₁.trans hw₂) rfl ⟨⟨hw₀.trans hw₂, hσ.leave hw₂ hσ₂⟩, rfl⟩
        (hfailed.mono fun _ hk => forceOnce_of_failed hcheck' hmemo hforcing hempty hk)

/-- **Evaluation keeps ranks**, so it does not matter what is done about a check that fails. -/
theorem interprets_vigilant (hcheck : Lenient check) (hcheck' : Lenient check') (before : Store) (config : Config)
    (n : Nat) :
    ∀ p forcing, (ranked company before config p forcing).Interprets (vigilant check company.others config n forcing)
      fun _ => vigilant check' company.others config n forcing := by
  induction n with
  | zero => exact fun p forcing => Tracking.interprets_zero config
  | succ n hI =>
    intro p forcing
    have := @remembers_vigilant check company.others hcheck _ config n forcing
    refine Tracking.interprets_nextWith (T := ranked company before config p forcing) (hI p forcing) ?_
    rintro w cell _ e r _ s ⟨⟨⟩, hcell⟩ hr
    cases hs : config.strategy with
    | byName => exact (hI p forcing).eval rfl hr rfl
    | byNeed => exact simulates_forceOnce company hcheck hcheck' hI hcell hr

end Interprets

end Treewalk
