import Treewalk.Proofs.Growth
import Treewalk.Proofs.Tracking

/-!
# Runs abreast of each other

Two runs of one expression start from stores that have much in common (`Departure`): some marks stand for each other,
and the memo cells of those are filled alike. Some cells are exempt: they are empty on the left and may be filled on the
right. While the runs go on they stay abreast (`Departure.Abreast`): what they make stands for each other, and what they
fill is filled on both sides.

**The right run follows the left one** (`interprets_abreast`) **and the left one the right one** (`interprets_flip`), if
it is said what happens where an exempt cell is forced. One answer is that it is not: an evaluator can be told to give
up there (`guarded`). It ends as usual if the usual evaluation ends with a value and leaves those cells empty
(`spares_guarded`).
-/

namespace Treewalk

open Run Filter

/-! ## The marks of a store -/

section Has

/-- The store has handed out the number of the mark. -/
def Store.Has (σ : Store) : Mark → Prop
  | .ident i => i < σ.nextId
  | .thunk t => t.1 < σ.cells.size

/-- Marks of one kind that have been handed out on either side. -/
inductive Store.Both (σ τ : Store) : Mark → Mark → Prop
  | ident {i i' : Nat} : i < σ.nextId → i' < τ.nextId → Both σ τ (.ident i) (.ident i')
  | thunk {t t' : Thunk} : t.1 < σ.cells.size → t'.1 < τ.cells.size → Both σ τ (.thunk t) (.thunk t')

variable {strategy : Strategy} {σ σ' τ τ' : Store} {m m' n : Mark}

theorem Store.Both.left (h : σ.Both τ m m') : σ.Has m := by
  cases h with
  | ident h _ => exact h
  | thunk h _ => exact h

theorem Store.Both.right (h : σ.Both τ m m') : τ.Has m' := by
  cases h with
  | ident _ h => exact h
  | thunk _ h => exact h

theorem Store.GrowsTo.has (h : σ.GrowsTo strategy τ) (hm : σ.Has m) : τ.Has m := by
  cases m with
  | ident i => exact hm.trans_le h.nextId
  | thunk t => exact hm.trans_le h.size

theorem Store.Both.grow (h : σ.Both τ m m') (hσ : σ.GrowsTo strategy σ') (hτ : τ.GrowsTo strategy τ') :
    σ'.Both τ' m m' := by
  cases h with
  | ident h h' => exact .ident (h.trans_le hσ.nextId) (h'.trans_le hτ.nextId)
  | thunk h h' => exact .thunk (h.trans_le hσ.size) (h'.trans_le hτ.size)

theorem Store.Both.symm (h : σ.Both τ m m') : τ.Both σ m' m := by
  cases h with
  | ident h h' => exact .ident h' h
  | thunk h h' => exact .thunk h' h

theorem Store.Both.comp {υ : Store} (h : σ.Both τ m m') (h' : τ.Both υ m' n) : σ.Both υ m n := by
  cases h with
  | ident hleft _ =>
    cases h' with
    | ident _ hright => exact .ident hleft hright
  | thunk hleft _ =>
    cases h' with
    | thunk _ hright => exact .thunk hleft hright

/-- Only the number of a mark matters. -/
theorem Store.Has.congr (h : σ.Has m) (hnumber : m.number = n.number) : σ.Has n := by
  cases m with
  | ident i =>
    cases n with
    | ident j =>
      cases hnumber
      exact h
    | thunk u => cases hnumber
  | thunk t =>
    cases n with
    | ident j => cases hnumber
    | thunk u =>
      have hcell : t.1 = u.1 := Sum.inr.inj hnumber
      exact lt_of_eq_of_lt hcell.symm h

/-- A cell that is filled exists. -/
theorem Store.lt_of_memo? {cell : Nat} {v : Value} (h : σ.memo? cell = some v) : cell < σ.cells.size := by
  by_contra hcell
  rw [Store.memo?, Array.getElem?_eq_none (Nat.le_of_not_lt hcell)] at h
  cases h

theorem Store.memo?_of_not_has {t : Thunk} (h : ¬σ.Has (.thunk t)) : σ.memo? t.1 = none := by
  cases hv : σ.memo? t.1 with
  | none => rfl
  | some v => exact absurd (Store.lt_of_memo? hv) h

/-- A store in which one cell more is filled. -/
theorem Store.memo?_fill {cell other : Nat} {v : Value} (hcell : cell < σ.cells.size) :
    { σ with cells := σ.cells.set! cell (some v) }.memo? other = if cell = other then some v else σ.memo? other := by
  rw [Store.memo?_set]
  simp [hcell]

end Has

/-! ## Departures -/

section Abreast

/-- What two runs start from. -/
structure Departure where
  strategy : Strategy
  /-- Which marks stand for each other. -/
  marks : Renaming
  left : Store
  right : Store
  /-- Memo cells that are empty on the left and may be filled on the right. -/
  exempt : Set Nat
  /-- Whether the left run may catch up on the exempt cells. -/
  catches : Prop

/-- How far the two runs have come. -/
structure Stage where
  marks : Renaming
  oneToOne : marks.OneToOne
  /-- Whether the left run has caught up on the exempt cells. -/
  caught : Prop

instance : Preorder Stage where
  le w w' := w.marks ≤ w'.marks ∧ (w.caught → w'.caught)
  le_refl w := ⟨le_rfl, id⟩
  le_trans w w' w'' h h' := ⟨h.1.trans h'.1, h'.2 ∘ h.2⟩

/-- The stores of two runs that stay abreast. As long as the left run has not caught up, what the right run had at the
start stands for nothing else than at the start, and is filled only where the left run fills a cell too. -/
structure Departure.Abreast (d : Departure) (w : Stage) (σ τ : Store) : Prop where
  start : d.marks ≤ w.marks
  both : ∀ {m m' : Mark}, w.marks m m' → σ.Both τ m m'
  memo : ∀ {t t' : Thunk}, w.marks (.thunk t) (.thunk t') → (t.1 ∈ d.exempt → w.caught) →
    Option.Rel (Value.Renamed w.marks) (σ.memo? t.1) (τ.memo? t'.1)
  lagging : ¬w.caught → ∀ cell ∈ d.exempt, σ.memo? cell = none
  left : d.left.GrowsTo d.strategy σ
  right : d.right.GrowsTo d.strategy τ
  left_old : ∀ {m m' : Mark}, w.marks m m' → d.left.Has m → d.marks m m'
  right_old : ¬w.caught → ∀ {m m' : Mark}, w.marks m m' → d.right.Has m' → d.marks m m'
  filled_old : ¬w.caught → ∀ {cell : Nat} {v : Value}, cell < d.right.cells.size →
    d.right.memo? cell = none → τ.memo? cell = some v →
    ∃ t t', w.marks (.thunk t) (.thunk t') ∧ t'.1 = cell ∧ t.1 ∉ d.exempt
  catches : w.caught → d.catches

variable {d : Departure} {w : Stage} {σ σ' τ τ' : Store} {m m' : Mark}

/-- The stores grow in a way that touches no memo cell. -/
theorem Departure.Abreast.grow (h : d.Abreast w σ τ) (hσ : σ.GrowsTo d.strategy σ') (hτ : τ.GrowsTo d.strategy τ')
    (hmemo : ∀ cell, σ'.memo? cell = σ.memo? cell) (hmemo' : ∀ cell, τ'.memo? cell = τ.memo? cell) :
    d.Abreast w σ' τ' where
  start := h.start
  both hm := (h.both hm).grow hσ hτ
  memo ht hexempt := by
    rw [hmemo, hmemo']
    exact h.memo ht hexempt
  lagging hcaught cell hcell := by
    rw [hmemo]
    exact h.lagging hcaught cell hcell
  left := h.left.trans hσ
  right := h.right.trans hτ
  left_old := h.left_old
  right_old := h.right_old
  filled_old hcaught {cell v} hcell hempty hfilled := by
    rw [hmemo'] at hfilled
    exact h.filled_old hcaught hcell hempty hfilled
  catches := h.catches

/-- One more pair of marks, new on either side. -/
def Renaming.insert (w : Renaming) (m m' : Mark) : Renaming :=
  fun n n' => n = m ∧ n' = m' ∨ w n n'

theorem Renaming.OneToOne.insert {w : Renaming} (hw : w.OneToOne)
    (hnew : ∀ n n', w n n' → n.number ≠ m.number ∧ n'.number ≠ m'.number) : (w.insert m m').OneToOne := by
  rintro a a' b b' (⟨rfl, rfl⟩ | ha) (⟨rfl, rfl⟩ | hb) hnumber
  · exact ⟨rfl, rfl⟩
  · obtain ⟨hne, hne'⟩ := hnew b b' hb
    rcases hnumber with h | h
    · exact absurd h.symm hne
    · exact absurd h.symm hne'
  · obtain ⟨hne, hne'⟩ := hnew a a' ha
    rcases hnumber with h | h
    · exact absurd h hne
    · exact absurd h hne'
  · exact hw ha hb hnumber

/-- A mark that a store does not have differs from those that it has. -/
theorem Departure.Abreast.number_ne (h : d.Abreast w σ τ) (hm : ¬σ.Has m) (hm' : ¬τ.Has m') (n n' : Mark)
    (hn : w.marks n n') : n.number ≠ m.number ∧ n'.number ≠ m'.number :=
  ⟨fun hnumber => hm ((h.both hn).left.congr hnumber), fun hnumber => hm' ((h.both hn).right.congr hnumber)⟩

/-- Both runs make something new. -/
theorem Departure.Abreast.insert (h : d.Abreast w σ τ) (hσ : σ.GrowsTo d.strategy σ') (hτ : τ.GrowsTo d.strategy τ')
    (hmemo : ∀ cell, σ'.memo? cell = σ.memo? cell) (hmemo' : ∀ cell, τ'.memo? cell = τ.memo? cell)
    (hm : ¬σ.Has m) (hm' : ¬τ.Has m') (hboth : σ'.Both τ' m m') :
    d.Abreast ⟨w.marks.insert m m', w.oneToOne.insert (h.number_ne hm hm'), w.caught⟩ σ' τ' := by
  have hgrown := h.grow hσ hτ hmemo hmemo'
  have hle : w.marks ≤ w.marks.insert m m' := fun _ _ => Or.inr
  constructor
  case start => exact h.start.trans hle
  case both =>
    rintro n n' (⟨rfl, rfl⟩ | hn)
    · exact hboth
    · exact hgrown.both hn
  case memo =>
    rintro t t' (⟨rfl, rfl⟩ | ht) hexempt
    · rw [hmemo, hmemo', Store.memo?_of_not_has hm, Store.memo?_of_not_has hm']
      exact .none
    · have hrel := hgrown.memo ht hexempt
      generalize σ'.memo? t.1 = held at hrel
      generalize τ'.memo? t'.1 = held' at hrel
      cases hrel with
      | none => exact .none
      | some hv => exact .some (hv.mono hle)
  case lagging => exact hgrown.lagging
  case left => exact hgrown.left
  case right => exact hgrown.right
  case left_old =>
    rintro n n' (⟨rfl, rfl⟩ | hn) hold
    · exact absurd (h.left.has hold) hm
    · exact h.left_old hn hold
  case right_old =>
    rintro hcaught n n' (⟨rfl, rfl⟩ | hn) hold
    · exact absurd (h.right.has hold) hm'
    · exact h.right_old hcaught hn hold
  case filled_old =>
    intro hcaught cell v hcell hnone hfilled
    obtain ⟨t, t', ht, hrest⟩ := hgrown.filled_old hcaught hcell hnone hfilled
    exact ⟨t, t', Or.inr ht, hrest⟩
  case catches => exact h.catches

/-- Both runs fill a cell. -/
theorem Departure.Abreast.fill (h : d.Abreast w σ τ) (hneed : d.strategy = .byNeed) {t t' : Thunk} {v v' : Value}
    (ht : w.marks (.thunk t) (.thunk t')) (hexempt : t.1 ∈ d.exempt → w.caught) (hv : v.Renamed w.marks v')
    (hempty : σ.memo? t.1 = none) (hempty' : τ.memo? t'.1 = none) :
    d.Abreast w { σ with cells := σ.cells.set! t.1 (some v) } { τ with cells := τ.cells.set! t'.1 (some v') } := by
  have hσ : σ.GrowsTo d.strategy { σ with cells := σ.cells.set! t.1 (some v) } := hneed ▸ .fill v hempty
  have hτ : τ.GrowsTo d.strategy { τ with cells := τ.cells.set! t'.1 (some v') } := hneed ▸ .fill v' hempty'
  have hcell : t.1 < σ.cells.size := (h.both ht).left
  have hcell' : t'.1 < τ.cells.size := (h.both ht).right
  constructor
  case start => exact h.start
  case both => exact fun hm => (h.both hm).grow hσ hτ
  case memo =>
    intro u u' hu hexempt'
    rw [Store.memo?_fill hcell, Store.memo?_fill hcell']
    by_cases hsame : t.1 = u.1
    · obtain ⟨_, heq⟩ := w.oneToOne ht hu (Or.inl (congrArg Sum.inr hsame))
      cases heq
      rw [if_pos hsame, if_pos rfl]
      exact .some hv
    · have hsame' : t'.1 ≠ u'.1 := by
        intro hsame'
        obtain ⟨heq, _⟩ := w.oneToOne ht hu (Or.inr (congrArg Sum.inr hsame'))
        cases heq
        exact hsame rfl
      rw [if_neg hsame, if_neg hsame']
      exact h.memo hu hexempt'
  case lagging =>
    intro hcaught cell hcell'
    rw [Store.memo?_fill hcell, if_neg, h.lagging hcaught cell hcell']
    rintro rfl
    exact hcaught (hexempt hcell')
  case left => exact h.left.trans hσ
  case right => exact h.right.trans hτ
  case left_old => exact h.left_old
  case right_old => exact h.right_old
  case filled_old =>
    intro hcaught cell u hold hnone hfilled
    rw [Store.memo?_fill hcell'] at hfilled
    split at hfilled
    · next hsame => exact ⟨t, t', ht, hsame, fun hmem => hcaught (hexempt hmem)⟩
    · exact h.filled_old hcaught hold hnone hfilled
  case catches => exact h.catches

/-- Two runs that stay abreast, under one limit. Where the left run may catch up, it may exhaust the limit thereby. -/
def abreast (limit : Option Nat) (d : Departure) : Tracking Stage where
  config := ⟨limit, d.strategy⟩
  marks w := w.marks
  store w σ τ := d.Abreast w σ τ
  pardons f := d.catches ∧ f.cause.category = .fatal
  mono hw := hw.1
  ident_unique w i i' j j' h h' := by
    constructor
    · rintro rfl
      cases (w.oneToOne h h' (Or.inl rfl)).2
      rfl
    · rintro rfl
      cases (w.oneToOne h h' (Or.inr rfl)).1
      rfl
  fresh {w σ τ} h := by
    have hgrows : ∀ υ : Store, υ.GrowsTo d.strategy { υ with nextId := υ.nextId + 1 } :=
      fun υ => ⟨Nat.le_succ _, le_rfl, id, fun _ _ => rfl⟩
    have hboth : Store.Both { σ with nextId := σ.nextId + 1 } { τ with nextId := τ.nextId + 1 } (.ident σ.nextId)
        (.ident τ.nextId) := .ident (Nat.lt_succ_self _) (Nat.lt_succ_self _)
    have hnext := h.insert (hgrows σ) (hgrows τ) (fun _ => rfl) (fun _ => rfl) (lt_irrefl _) (lt_irrefl _) hboth
    refine ⟨_, ?_, ?_, hnext⟩
    · exact ⟨fun _ _ => Or.inr, id⟩
    · exact Or.inl ⟨rfl, rfl⟩
  note {w σ τ} tested h := by
    have hgrows : ∀ υ : Store, υ.GrowsTo d.strategy { υ with testedIdentity := υ.testedIdentity || tested } :=
      fun υ => ⟨le_rfl, le_rfl, id, fun _ _ => rfl⟩
    exact h.grow (hgrows σ) (hgrows τ) (fun _ => rfl) fun _ => rfl
  alloc {w σ τ r r'} e h _ := by
    have hboth : Store.Both { σ with cells := σ.cells.push none } { τ with cells := τ.cells.push none }
        (.thunk (σ.cells.size, e, r)) (.thunk (τ.cells.size, e, r')) := .thunk (by simp) (by simp)
    have hnext := h.insert (.push _ σ) (.push _ τ) σ.memo?_push τ.memo?_push (lt_irrefl _) (lt_irrefl _) hboth
    refine ⟨_, ?_, ?_, hnext⟩
    · exact ⟨fun _ _ => Or.inr, id⟩
    · exact Or.inl ⟨rfl, rfl⟩
  pardons_attach s f h := by
    rw [s.attach_cause]
    exact h

end Abreast

/-! ## Evaluators that give up -/

section Guarded

open Classical in
/-- Forces a thunk, but gives up on the blocked cells. -/
noncomputable def Interpreter.forceUnless (blocked : Set Nat) (I : Interpreter) (strategy : Strategy) (cell : Nat)
    (e : Expr) (env : Env) (stack : CallStack) : Run Value :=
  if cell ∈ blocked then outOfFuel else I.force strategy cell e env stack

/-- The evaluator that gives up where it would force one of the blocked cells. -/
noncomputable def guarded (blocked : Set Nat) (config : Config) : Nat → Interpreter
  | 0 => interpreter config 0
  | n + 1 => (guarded blocked config n).nextWith config
    ((guarded blocked config n).forceUnless blocked config.strategy)

variable {blocked : Set Nat} {cell : Nat}

theorem forceUnless_of_mem (h : cell ∈ blocked) (I : Interpreter) (strategy : Strategy) (e : Expr) (env : Env)
    (stack : CallStack) : I.forceUnless blocked strategy cell e env stack = outOfFuel :=
  if_pos h

theorem forceUnless_of_notMem (h : cell ∉ blocked) (I : Interpreter) (strategy : Strategy) (e : Expr) (env : Env)
    (stack : CallStack) : I.forceUnless blocked strategy cell e env stack = I.force strategy cell e env stack :=
  if_neg h

/-- Where nothing is blocked, the evaluator is the usual one. -/
theorem guarded_empty (config : Config) (n : Nat) : guarded ∅ config n = interpreter config n := by
  induction n with
  | zero => rfl
  | succ n ih =>
    rw [interpreter_succ_eq_nextWith, guarded, ih]
    congr 1
    funext cell e env stack
    exact forceUnless_of_notMem (Set.notMem_empty cell) _ _ e env stack

instance : (outOfFuel : Run Value).Remembers := ⟨fun _ _ => trivial⟩

instance (I : Interpreter) [I.Remembers] (strategy : Strategy) (cell : Nat) (e : Expr) (env : Env) (stack : CallStack) :
    (I.force strategy cell e env stack).Remembers :=
  (compositional_remembers strategy).force (fun _ => I) (fun _ => stack) (fun _ _ => inferInstance) cell e env

instance (blocked : Set Nat) (I : Interpreter) [I.Remembers] (strategy : Strategy) (cell : Nat) (e : Expr) (env : Env)
    (stack : CallStack) : (I.forceUnless blocked strategy cell e env stack).Remembers := by
  unfold Interpreter.forceUnless
  split <;> infer_instance

instance remembers_guarded (blocked : Set Nat) (config : Config) : ∀ n, (guarded blocked config n).Remembers
  | 0 => remembers_interpreter config 0
  | n + 1 => by
    have := remembers_guarded blocked config n
    exact inferInstanceAs (Interpreter.nextWith _ _ _).Remembers

/-- If the run `m'` gives a result and leaves the blocked cells empty, then `m` gives the same result. -/
def Run.Spares {α : Type} (blocked : Set Nat) (m m' : Run α) : Prop :=
  m'.Grows .byNeed ∧ ∀ {σ τ : Store} {a : α}, (∀ cell ∈ blocked, cell < σ.cells.size) → m' σ = .done a τ →
    (∀ cell ∈ blocked, τ.memo? cell = none) → m σ = .done a τ

theorem Run.Spares.bind {α β : Type} {m m' : Run α} {f f' : α → Run β} (hm : Spares blocked m m')
    (hf : ∀ a, Spares blocked (f a) (f' a)) : Spares blocked (m >>= f) (m' >>= f') := by
  refine ⟨hm.1.bind fun a => (hf a).1, fun {σ τ b} hblocked hdone hempty => ?_⟩
  rw [bind_apply] at hdone ⊢
  cases hr : m' σ with
  | outOfFuel =>
    rw [hr] at hdone
    cases hdone
  | failed failure υ =>
    rw [hr] at hdone
    cases hdone
  | done a υ =>
    rw [hr] at hdone
    have hfirst := hm.1 σ υ (congrArg Outcome.store? hr)
    have hsecond := (hf a).1 υ τ (congrArg Outcome.store? hdone)
    -- what is filled half way stays filled
    have hmiddle : ∀ cell ∈ blocked, υ.memo? cell = none := by
      intro cell hcell
      cases hv : υ.memo? cell with
      | none => rfl
      | some v =>
        have hlate := hsecond.filled hv
        rw [hempty cell hcell] at hlate
        cases hlate
    rw [hm.2 hblocked hr hmiddle]
    exact (hf a).2 (fun cell hcell => (hblocked cell hcell).trans_le hfirst.size) hdone hempty

theorem compositional_spares (blocked : Set Nat) :
    Compositional .byNeed fun m : Bool → Run _ => Spares blocked (m false) (m true) := by
  have hP := compositional_grows .byNeed
  have hsame : ∀ {α : Type} {m : Run α}, m.Grows .byNeed → Spares blocked m m :=
    fun hgrows => ⟨hgrows, fun _ hdone _ => hdone⟩
  exact {
    pure := fun a => hsame (hP.pure a)
    bind := .bind
    fail := fun cause hcause => hsame (hP.fail cause hcause)
    freshId := hsame hP.freshId
    newCell := hsame hP.newCell
    noteIdentityTest := fun tested => hsame (hP.noteIdentityTest tested)
    memo? := fun hs cell => hsame (hP.memo? hs cell)
    memoize := fun hs cell v => hsame (hP.memoize hs cell v) }

theorem Run.Spares.inFrame {α : Type} {limit : Option Nat} {e : Expr} {stack : CallStack} {m m' : CallStack → Run α}
    (h : ∀ inner, Spares blocked (m inner) (m' inner)) :
    Spares blocked (inFrame limit e stack m) (inFrame limit e stack m') := by
  refine ⟨Grows.inFrame fun inner => (h inner).1, fun {σ τ a} hblocked hdone hempty => ?_⟩
  unfold Run.inFrame at hdone ⊢
  cases hp : stack.pushWithin limit e with
  | error cause =>
    rw [hp] at hdone
    cases hdone
  | ok inner =>
    rw [hp] at hdone
    have hbody : m' inner σ = .done a τ := by
      dsimp only at hdone
      cases hr : m' inner σ <;> rw [hr] at hdone <;> cases hdone
      rfl
    simp only [(h inner).2 hblocked hbody hempty]

/-- By need, a cell that has been forced is filled. -/
theorem memo?_of_force {I : Interpreter} {e : Expr} {env : Env} {stack : CallStack} {σ τ : Store} {v : Value}
    (hI : (I.eval e env stack).Grows .byNeed) (hcell : cell < σ.cells.size)
    (hdone : I.force .byNeed cell e env stack σ = .done v τ) : ∃ held, τ.memo? cell = some held := by
  cases hmemo : σ.memo? cell with
  | some held =>
    rw [force_of_some I e env stack hmemo] at hdone
    cases hdone
    exact ⟨_, hmemo⟩
  | none =>
    rw [force_of_none I e env stack hmemo, bind_apply] at hdone
    cases hr : I.eval e env stack σ with
    | outOfFuel =>
      rw [hr] at hdone
      cases hdone
    | failed failure υ =>
      rw [hr] at hdone
      cases hdone
    | done u υ =>
      have hsize := (hI σ υ (congrArg Outcome.store? hr)).size
      rw [hr] at hdone
      dsimp only [memoize] at hdone
      cases hheld : υ.memo? cell with
      | some held =>
        rw [hheld] at hdone
        cases hdone
        exact ⟨_, hheld⟩
      | none =>
        rw [hheld] at hdone
        cases hdone
        exact ⟨_, by rw [Store.memo?_fill (hcell.trans_le hsize), if_pos rfl]⟩

theorem spares_guarded (blocked : Set Nat) (limit : Option Nat) :
    ∀ n, (∀ e env stack, Spares blocked ((guarded blocked ⟨limit, .byNeed⟩ n).eval e env stack)
        (eval ⟨limit, .byNeed⟩ n e env stack)) ∧
      ∀ callee args stack, Spares blocked ((guarded blocked ⟨limit, .byNeed⟩ n).apply callee args stack)
        (apply ⟨limit, .byNeed⟩ n callee args stack)
  | 0 => ⟨fun _ _ _ => ⟨fun _ _ => nofun, fun _ => nofun⟩, fun _ _ _ => ⟨fun _ _ => nofun, fun _ => nofun⟩⟩
  | n + 1 => by
    obtain ⟨heval, happly⟩ := spares_guarded blocked limit n
    have hP := compositional_spares blocked
    let I : Bool → Interpreter := fun i =>
      cond i (interpreter ⟨limit, .byNeed⟩ n) (guarded blocked ⟨limit, .byNeed⟩ n)
    -- a blocked cell that is forced is not spared
    have hforce : ∀ cell e env stack, Spares blocked
        ((I false).forceUnless blocked .byNeed cell e env stack) ((I true).force .byNeed cell e env stack) := by
      intro cell e env stack
      have h := hP.force I (fun _ => stack) (fun e env => heval e env stack) cell e env
      by_cases hmem : cell ∈ blocked
      · refine ⟨h.1, fun {σ τ v} hblocked hdone hempty => ?_⟩
        obtain ⟨held, hheld⟩ := memo?_of_force (heval e env stack).1 (hblocked cell hmem) hdone
        rw [hempty cell hmem] at hheld
        cases hheld
      · rw [forceUnless_of_notMem hmem]
        exact h
    constructor
    · intro e env stack
      refine Spares.inFrame fun inner => ?_
      have hstep := hP.evalStep I (fun _ => inner) (fun e env => heval e env inner) (fun _ => ⟨limit, .byNeed⟩)
        (fun _ => rfl) (fun callee args => happly callee args inner) (fun decl env => Spares.inFrame fun inner' =>
          hP.declare I (fun _ => inner') (fun e env => heval e env inner') decl env) e env
      cases e with
      | symbol name =>
        show Spares blocked (lookupWith _ name env inner) (lookupWith _ name env inner)
        unfold lookupWith
        cases Env.lookup? env name with
        | none => exact hP.fail _ nofun
        | some binding =>
          cases binding with
          | value v => exact hP.pure v
          | thunk cell e captured => exact hforce cell e captured inner
      | _ => exact hstep
    · intro callee args stack
      refine hP.applyStep I (fun _ => stack) callee args (fun e env => heval e env stack) fun builtin collected _ => ?_
      refine hP.callBuiltin I (fun _ => stack) builtin _ fun op func coll _ => ?_
      exact hP.combine I (fun _ => stack) op func fun before v _ => happly func (before ++ [v]) stack

end Guarded

/-! ## The right run follows -/

section Follows

variable {limit : Option Nat} {d : Departure} {w : Stage} {I : Interpreter} {cell cell' : Nat} {e : Expr} {r r' : Env}
  {s : CallStack}

/-- A cell that is not exempt, or on which the left run has caught up, stays so. -/
theorem Stage.caught_of_le {w' : Stage} (hw : w ≤ w') (hexempt : cell ∈ d.exempt → w.caught) :
    cell ∈ d.exempt → w'.caught :=
  fun hmem => hw.2 (hexempt hmem)

/-- Both runs force a cell that is not exempt. -/
theorem simulates_force_abreast [I.Remembers] (hI : (abreast limit d).Interprets I (interpreter ⟨limit, d.strategy⟩))
    (ht : w.marks (.thunk (cell, e, r)) (.thunk (cell', e, r'))) (hr : Env.Renamed w.marks r r')
    (hexempt : cell ∈ d.exempt → w.caught) :
    (abreast limit d).Simulates w (abreast limit d).value (I.force d.strategy cell e r s)
      fun k => (interpreter ⟨limit, d.strategy⟩ k).force d.strategy cell' e r' s := by
  refine Simulation.force hI rfl hr rfl (fun hw h => ?_) fun hneed w' σ τ v v' hw h hv => ?_
  · exact h.memo (hw.1 _ _ ht) (Stage.caught_of_le hw hexempt)
  · exact h.fill hneed (hw.1 _ _ ht) (Stage.caught_of_le hw hexempt) hv

/-- Seen from the other side. -/
theorem simulates_force_flip [I.Remembers]
    (hI : (abreast limit d).flip.Interprets I (interpreter ⟨limit, d.strategy⟩))
    (ht : w.marks (.thunk (cell', e, r')) (.thunk (cell, e, r))) (hr : Env.Renamed w.marks r' r)
    (hexempt : cell' ∈ d.exempt → w.caught) :
    (abreast limit d).flip.Simulates w (abreast limit d).flip.value (I.force d.strategy cell e r s)
      fun k => (interpreter ⟨limit, d.strategy⟩ k).force d.strategy cell' e r' s := by
  refine Simulation.force hI rfl hr.symm rfl (fun {w' σ τ} hw h => ?_)
    fun hneed w' σ τ v v' hw h hv hempty hempty' => ?_
  · have hrel := h.memo (hw.1 _ _ ht) (Stage.caught_of_le hw hexempt)
    generalize τ.memo? cell' = held at hrel ⊢
    generalize σ.memo? cell = held' at hrel ⊢
    cases hrel with
    | none => exact .none
    | some hv => exact .some hv.symm
  · exact h.fill hneed (hw.1 _ _ ht) (Stage.caught_of_le hw hexempt) hv.symm hempty' hempty

/-- **The right run follows the left one**, if it does so where the left run forces an exempt cell that is not
blocked. -/
theorem interprets_abreast (limit : Option Nat) (d : Departure) (blocked : Set Nat)
    (hcatch : ∀ (n : Nat) {w : Stage} {σ τ : Store} {t t' : Thunk} (s : CallStack), d.Abreast w σ τ →
      w.marks (.thunk t) (.thunk t') → t.1 ∈ d.exempt → ¬w.caught → t.1 ∉ blocked →
      (abreast limit d).simulation.Follows w (abreast limit d).value
        ((guarded blocked ⟨limit, d.strategy⟩ n).force d.strategy t.1 t.2.1 t.2.2 s σ)
        fun k => (interpreter ⟨limit, d.strategy⟩ k).force d.strategy t'.1 t'.2.1 t'.2.2 s τ) (n : Nat) :
    (abreast limit d).Interprets (guarded blocked ⟨limit, d.strategy⟩ n) (interpreter ⟨limit, d.strategy⟩) := by
  induction n with
  | zero => exact Tracking.interprets_zero _
  | succ n hI =>
    refine Tracking.interprets_succ (T := abreast limit d) hI ?_
    intro w cell cell' e r r' s ht hr σ τ h
    by_cases hblocked : cell ∈ blocked
    · rw [forceUnless_of_mem hblocked]
      exact .excused .outOfFuel
    · rw [forceUnless_of_notMem hblocked]
      by_cases hexempt : cell ∈ d.exempt → w.caught
      · exact simulates_force_abreast hI ht hr hexempt σ τ h
      · obtain ⟨hmem, hcaught⟩ := Classical.not_imp.1 hexempt
        exact hcatch n s h ht hmem hcaught hblocked

/-- **The left run follows the right one**, if it does so where the right run forces an exempt cell. -/
theorem interprets_flip (limit : Option Nat) (d : Departure)
    (hcatch : ∀ (n : Nat) {w : Stage} {σ τ : Store} {t t' : Thunk} (s : CallStack), d.Abreast w σ τ →
      w.marks (.thunk t) (.thunk t') → t.1 ∈ d.exempt → ¬w.caught →
      (abreast limit d).flip.simulation.Follows w (abreast limit d).flip.value
        ((interpreter ⟨limit, d.strategy⟩ n).force d.strategy t'.1 t'.2.1 t'.2.2 s τ)
        fun k => (interpreter ⟨limit, d.strategy⟩ k).force d.strategy t.1 t.2.1 t.2.2 s σ) (n : Nat) :
    (abreast limit d).flip.Interprets (interpreter ⟨limit, d.strategy⟩ n) (interpreter ⟨limit, d.strategy⟩) := by
  induction n with
  | zero => exact Tracking.interprets_zero _
  | succ n hI =>
    rw [interpreter_succ_eq_nextWith]
    refine Tracking.interprets_succ (T := (abreast limit d).flip) hI ?_
    intro w cell cell' e r r' s ht hr σ τ h
    by_cases hexempt : cell' ∈ d.exempt → w.caught
    · exact simulates_force_flip hI ht hr.symm hexempt σ τ h
    · obtain ⟨hmem, hcaught⟩ := Classical.not_imp.1 hexempt
      exact hcatch n s h ht hmem hcaught

end Follows

end Treewalk
