import Treewalk.Proofs.Abreast
import Treewalk.Proofs.Backtraces

/-!
# Cold and warm stores

A store is warmer than another one if more of its memo cells are filled. It `Warms` what an expression finds, if the
expression ends from the warm store as it does from the cold one: with the same failure, or with a value that is equal
up to a one-to-one renaming. Under a limit, this is said of the runs from the cold store that do not exhaust it: the run
from the warm store may need fewer frames. Conversely, what ends from the warm store ends from the cold one.

* Warming is transitive (`Warms.trans`).
* Runs that stay abreast warm (`warms_of_abreast`). The departure is a coherent store (`Store.Coherent`), in which each
  memo cell belongs to one thunk and holds only what is known.
* Hence identities and cells that nothing refers to make no difference (`warms_of_grows`).
-/

namespace Treewalk

open Run Filter

/-! ## Coherent stores -/

section Coherent

/-- The store has the marks of the set, each number belongs to one of them, and the values in their memo cells have no
other marks. -/
structure Store.Coherent (T : Set Mark) (σ : Store) : Prop where
  has : ∀ m ∈ T, σ.Has m
  single : ∀ m ∈ T, ∀ n ∈ T, m.number = n.number → m = n
  memo : ∀ {t : Thunk} {v : Value}, .thunk t ∈ T → σ.memo? t.1 = some v → ∀ m ∈ v.marks, m ∈ T

variable {T : Set Mark} {σ τ : Store}

theorem Store.Coherent.oneToOne (h : σ.Coherent T) : (Renaming.on T).OneToOne := by
  rintro m _ n _ ⟨rfl, hm⟩ ⟨rfl, hn⟩ hnumber
  have heq := h.single m hm n hn (or_self_iff.1 hnumber)
  exact ⟨heq, heq⟩

/-- The store grows in a way that touches no memo cell. -/
theorem Store.Coherent.grow {strategy : Strategy} (h : σ.Coherent T) (hgrows : σ.GrowsTo strategy τ)
    (hmemo : ∀ cell, τ.memo? cell = σ.memo? cell) : τ.Coherent T where
  has m hm := hgrows.has (h.has m hm)
  single := h.single
  memo {t v} ht hv := by
    rw [hmemo] at hv
    exact h.memo ht hv

/-- One more mark, which is new. -/
theorem Store.Coherent.insert {strategy : Strategy} {m : Mark} (h : σ.Coherent T) (hgrows : σ.GrowsTo strategy τ)
    (hmemo : ∀ cell, τ.memo? cell = σ.memo? cell) (hnew : ¬σ.Has m) (hm : τ.Has m) : τ.Coherent (insert m T) where
  has := by
    rintro n (rfl | hn)
    · exact hm
    · exact hgrows.has (h.has n hn)
  single := by
    rintro n (rfl | hn) n' (rfl | hn') hnumber
    · rfl
    · exact absurd ((h.has n' hn').congr hnumber.symm) hnew
    · exact absurd ((h.has n hn).congr hnumber) hnew
    · exact h.single n hn n' hn' hnumber
  memo := by
    rintro t v (rfl | ht) hv n hn
    · rw [hmemo] at hv
      exact absurd (Store.lt_of_memo? hv) hnew
    · exact Or.inr ((h.grow hgrows hmemo).memo ht hv n hn)

/-- A cell is filled with a value that has no other marks. -/
theorem Store.Coherent.fill {cell : Nat} {v : Value} (h : σ.Coherent T) (hv : ∀ m ∈ v.marks, m ∈ T) :
    { σ with cells := σ.cells.set! cell (some v) }.Coherent T where
  has m hm := by
    have hold := h.has m hm
    cases m with
    | ident i => exact hold
    | thunk t =>
      show t.1 < (σ.cells.set! cell (some v)).size
      rw [Array.set!_eq_setIfInBounds, Array.size_setIfInBounds]
      exact hold
  single := h.single
  memo {t u} ht hu := by
    rw [Store.memo?_set] at hu
    split at hu
    · cases hu
      exact hv
    · exact h.memo ht hu

end Coherent

/-! ## Warming -/

section Warms

/-- How a warm run ends, compared with a cold one: what stands for each other at the end, and which cells are filled.
A cell that the cold run leaves empty is filled by the warm run only if it has been filled before. -/
structure Meets (T : Set Mark) (cold warm coldEnd warmEnd : Store) (ρ : Renaming) : Prop where
  oneToOne : ρ.OneToOne
  fixes : ∀ m ∈ T, ρ m m
  both : ∀ {m m' : Mark}, ρ m m' → coldEnd.Both warmEnd m m'
  filled : ∀ {t t' : Thunk} {v : Value}, ρ (.thunk t) (.thunk t') → coldEnd.memo? t.1 = some v →
    ∃ v', warmEnd.memo? t'.1 = some v' ∧ v.Renamed ρ v'
  unfilled : ∀ {t t' : Thunk}, ρ (.thunk t) (.thunk t') → coldEnd.memo? t.1 = none → warm.memo? t'.1 = none →
    warmEnd.memo? t'.1 = none
  start : ∀ {t t' : Thunk}, ρ (.thunk t) (.thunk t') → warm.memo? t'.1 = none → cold.memo? t.1 = none

/-- Expressions over the marks of the set end from the warm store as they do from the cold one, unless they exhaust the
limit by need. Without a limit they end from both or from none. -/
structure Warms (strategy : Strategy) (T : Set Mark) (cold warm : Store) : Prop where
  done : ∀ {limit : Option Nat} {e : Expr} {r : Env} {s : CallStack} {v : Value} {coldEnd : Store},
    (∀ m ∈ Env.marks r, m ∈ T) → Evaluates ⟨limit, strategy⟩ e r s cold (.done v coldEnd) →
    ∃ ρ v' warmEnd, Evaluates ⟨limit, strategy⟩ e r s warm (.done v' warmEnd) ∧ Meets T cold warm coldEnd warmEnd ρ ∧
      v.Renamed ρ v'
  failed : ∀ {limit : Option Nat} {e : Expr} {r : Env} {s : CallStack} {f : Failure} {coldEnd : Store},
    (∀ m ∈ Env.marks r, m ∈ T) → (strategy = .byNeed → f.cause.category ≠ .fatal) →
    Evaluates ⟨limit, strategy⟩ e r s cold (.failed f coldEnd) →
    ∃ warmEnd, Evaluates ⟨limit, strategy⟩ e r s warm (.failed f warmEnd)
  ends : ∀ {e : Expr} {r : Env} {s : CallStack} {outcome : Outcome Value}, (∀ m ∈ Env.marks r, m ∈ T) →
    Evaluates ⟨none, strategy⟩ e r s warm outcome → ∃ outcome', Evaluates ⟨none, strategy⟩ e r s cold outcome'

variable {strategy : Strategy} {T T' : Set Mark} {σ τ υ σ' τ' υ' : Store} {ρ ρ' : Renaming}

theorem Meets.comp (h : Meets T σ τ σ' τ' ρ) (h' : Meets T' τ υ τ' υ' ρ') (hT : T ⊆ T') :
    Meets T σ υ σ' υ' (ρ.comp ρ') := by
  -- what stands between two thunks is a thunk
  have hmiddle : ∀ {t t' : Thunk}, ρ.comp ρ' (.thunk t) (.thunk t') →
      ∃ u : Thunk, ρ (.thunk t) (.thunk u) ∧ ρ' (.thunk u) (.thunk t') := by
    rintro t t' ⟨m, hm, hm'⟩
    cases h.both hm with
    | thunk => exact ⟨_, hm, hm'⟩
  constructor
  case oneToOne => exact h.oneToOne.comp h'.oneToOne
  case fixes => exact fun m hm => ⟨m, h.fixes m hm, h'.fixes m (hT hm)⟩
  case both =>
    rintro m m'' ⟨m', hm, hm'⟩
    exact (h.both hm).comp (h'.both hm')
  case filled =>
    intro t t' v ht hv
    obtain ⟨u, ht, hu⟩ := hmiddle ht
    obtain ⟨v', hv', hrenamed⟩ := h.filled ht hv
    obtain ⟨v'', hv'', hrenamed'⟩ := h'.filled hu hv'
    exact ⟨v'', hv'', hrenamed.comp hrenamed'⟩
  case unfilled =>
    intro t t' ht hcold hwarm
    obtain ⟨u, ht, hu⟩ := hmiddle ht
    exact h'.unfilled hu (h.unfilled ht hcold (h'.start hu hwarm)) hwarm
  case start =>
    intro t t' ht hwarm
    obtain ⟨u, ht, hu⟩ := hmiddle ht
    exact h.start ht (h'.start hu hwarm)

/-- Warming twice. -/
theorem Warms.trans (h : Warms strategy T σ τ) (h' : Warms strategy T' τ υ) (hT : T ⊆ T') : Warms strategy T σ υ where
  done hr heval := by
    obtain ⟨ρ, v', τ', heval', hmeets, hv⟩ := h.done hr heval
    obtain ⟨ρ', v'', υ', heval'', hmeets', hv'⟩ := h'.done (fun m hm => hT (hr m hm)) heval'
    exact ⟨ρ.comp ρ', v'', υ', heval'', hmeets.comp hmeets' hT, hv.comp hv'⟩
  failed hr hfatal heval := by
    obtain ⟨τ', heval'⟩ := h.failed hr hfatal heval
    exact h'.failed (fun m hm => hT (hr m hm)) hfatal heval'
  ends hr heval := by
    obtain ⟨outcome, heval'⟩ := h'.ends (fun m hm => hT (hr m hm)) heval
    exact h.ends hr heval'

end Warms

/-! ## Departures from one store -/

section Departures

variable {d : Departure} {T T' : Set Mark}

/-- The stage at which every mark of the set stands for itself. -/
def Stage.on (T : Set Mark) (h : (Renaming.on T).OneToOne) : Stage :=
  ⟨Renaming.on T, h, False⟩

/-- Runs from stores that agree, but for the exempt cells, on the marks of a coherent set start abreast. -/
theorem Departure.abreast_on (hmarks : d.marks = Renaming.on T) (hleft : d.left.Coherent T)
    (hright : ∀ m ∈ T, d.right.Has m) (hexempt : ∀ cell ∈ d.exempt, d.left.memo? cell = none)
    (hmemo : ∀ t, .thunk t ∈ T → t.1 ∉ d.exempt → d.right.memo? t.1 = d.left.memo? t.1) :
    d.Abreast (Stage.on T hleft.oneToOne) d.left d.right where
  start := hmarks.le
  both := by
    rintro m _ ⟨rfl, hm⟩
    have hl := hleft.has m hm
    have hr := hright m hm
    cases m with
    | ident i => exact .ident hl hr
    | thunk t => exact .thunk hl hr
  memo := by
    rintro t _ ⟨⟨⟩, ht⟩ hnot
    rw [hmemo t ht fun hmem => hnot hmem]
    cases hv : d.left.memo? t.1 with
    | none => exact .none
    | some v => exact .some (Value.renamed_on_iff.2 (hleft.memo ht hv))
  lagging _ := hexempt
  left := .refl _ _
  right := .refl _ _
  left_old hm _ := hmarks ▸ hm
  right_old _ {m m'} hm _ := hmarks ▸ hm
  filled_old _ {cell v} _ hnone hsome := by
    rw [hnone] at hsome
    cases hsome
  catches := False.elim

/-- Where runs that have stayed abreast end, they have met, if the exempt cells are filled on the right. -/
theorem Departure.Abreast.meets {w : Stage} {coldEnd warmEnd : Store} (hend : d.Abreast w coldEnd warmEnd)
    (hmarks : d.marks = Renaming.on T) (hfixes : ∀ m ∈ T', w.marks m m)
    (hexempt : ∀ cell ∈ d.exempt, cell < d.left.cells.size ∧ d.right.memo? cell ≠ none)
    (hfilled : ∀ {cell v}, d.left.memo? cell = some v → d.right.memo? cell = some v) :
    Meets T' d.left d.right coldEnd warmEnd w.marks := by
  -- what the cold store had stands for itself
  have hold : ∀ {t t' : Thunk}, w.marks (.thunk t) (.thunk t') → t.1 < d.left.cells.size → t' = t := by
    intro t t' ht hcell
    have hon := hend.left_old ht hcell
    rw [hmarks] at hon
    cases hon.1
    rfl
  constructor
  case oneToOne => exact w.oneToOne
  case fixes => exact hfixes
  case both => exact hend.both
  case filled =>
    intro t t' u ht hu
    have hrel := hend.memo ht fun hmem => by
      by_contra hcaught
      rw [hend.lagging hcaught t.1 hmem] at hu
      cases hu
    rw [hu] at hrel
    generalize warmEnd.memo? t'.1 = held' at hrel ⊢
    cases hrel with
    | some hu' => exact ⟨_, rfl, hu'⟩
  case unfilled =>
    intro t t' ht hcold hwarm
    have hrel := hend.memo ht fun hmem => by
      obtain ⟨hcell, hright⟩ := hexempt t.1 hmem
      rw [hold ht hcell] at hwarm
      exact absurd hwarm hright
    rw [hcold] at hrel
    generalize warmEnd.memo? t'.1 = held' at hrel ⊢
    cases hrel with
    | none => rfl
  case start =>
    intro t t' ht hwarm
    cases hcold : d.left.memo? t.1 with
    | none => rfl
    | some u =>
      rw [hold ht (Store.lt_of_memo? hcold), hfilled hcold] at hwarm
      cases hwarm

/-- **Runs that stay abreast warm**, if the exempt cells are filled on the right. -/
theorem warms_of_abreast (hmarks : d.marks = Renaming.on T) (hone : (Renaming.on T).OneToOne) (hT : T' ⊆ T)
    (hstart : d.Abreast (Stage.on T hone) d.left d.right)
    (hexempt : ∀ cell ∈ d.exempt, cell < d.left.cells.size ∧ d.right.memo? cell ≠ none)
    (hfilled : ∀ {cell v}, d.left.memo? cell = some v → d.right.memo? cell = some v)
    (hcatches : d.catches → d.strategy = .byNeed)
    (hI : ∀ limit n,
      (abreast limit d).Interprets (interpreter ⟨limit, d.strategy⟩ n) (interpreter ⟨limit, d.strategy⟩))
    (hback : ∀ n,
      (abreast none d).flip.Interprets (interpreter ⟨none, d.strategy⟩ n) (interpreter ⟨none, d.strategy⟩)) :
    Warms d.strategy T' d.left d.right where
  done := by
    rintro limit e r s v coldEnd hr ⟨-, n, heval⟩
    have henv : Env.Renamed (Stage.on T hone).marks r r := Env.renamed_on_iff.2 fun m hm => hT (hr m hm)
    have hfollows := (hI limit n).eval (w := Stage.on T hone) (e := e) rfl henv (rfl : s = s) d.left d.right hstart
    rw [show (interpreter ⟨limit, d.strategy⟩ n).eval e r s d.left = _ from heval] at hfollows
    obtain ⟨w, v', warmEnd, hw, hv, hend, hdone⟩ := Tracking.exists_done hfollows
    have hmeets := hend.meets hmarks (fun m hm => hw.1 m m ⟨rfl, hT hm⟩) hexempt hfilled
    exact ⟨w.marks, v', warmEnd, .of_eventually nofun hdone, hmeets, hv⟩
  failed := by
    rintro limit e r s f coldEnd hr hfatal ⟨-, n, heval⟩
    have henv : Env.Renamed (Stage.on T hone).marks r r := Env.renamed_on_iff.2 fun m hm => hT (hr m hm)
    have hfollows := (hI limit n).eval (w := Stage.on T hone) (e := e) rfl henv (rfl : s = s) d.left d.right hstart
    rw [show (interpreter ⟨limit, d.strategy⟩ n).eval e r s d.left = _ from heval] at hfollows
    obtain ⟨_, warmEnd, _, _, hfailed⟩ :=
      Tracking.exists_failed hfollows fun hpardon => hfatal (hcatches hpardon.1) hpardon.2
    exact ⟨warmEnd, .of_eventually nofun hfailed⟩
  ends := by
    rintro e r s outcome hr ⟨hends, n, heval⟩
    have henv : Env.Renamed (Stage.on T hone).marks r r := Env.renamed_on_iff.2 fun m hm => hT (hr m hm)
    have hfollows := (hback n).eval (w := Stage.on T hone) (e := e) rfl henv.symm (rfl : s = s) d.right d.left hstart
    rw [show (interpreter ⟨none, d.strategy⟩ n).eval e r s d.right = _ from heval] at hfollows
    cases outcome with
    | outOfFuel => exact absurd rfl hends
    | done v warmEnd =>
      obtain ⟨_, v', coldEnd, _, _, _, hdone⟩ := Tracking.exists_done hfollows
      exact ⟨.done v' coldEnd, .of_eventually nofun hdone⟩
    | failed f warmEnd =>
      obtain ⟨_, coldEnd, _, _, hfailed⟩ := Tracking.exists_failed hfollows id
      exact ⟨.failed f coldEnd, .of_eventually nofun hfailed⟩

section NoExempt

variable (hd : d.exempt = ∅) (limit : Option Nat) (n : Nat)
include hd

/-- Where nothing is exempt, evaluators stay abreast. -/
theorem interprets_of_no_exempt :
    (abreast limit d).Interprets (interpreter ⟨limit, d.strategy⟩ n) (interpreter ⟨limit, d.strategy⟩) := by
  have h := interprets_abreast limit d ∅ (fun n w σ τ t t' s _ _ hmem => by rw [hd] at hmem; cases hmem) n
  rw [guarded_empty] at h
  exact h

theorem interprets_flip_of_no_exempt :
    (abreast limit d).flip.Interprets (interpreter ⟨limit, d.strategy⟩ n) (interpreter ⟨limit, d.strategy⟩) :=
  interprets_flip limit d (fun n w σ τ t t' s _ _ hmem => by rw [hd] at hmem; cases hmem) n

end NoExempt

/-- Two runs from stores in which the same cells are filled. -/
def Departure.level (strategy : Strategy) (T : Set Mark) (σ τ : Store) : Departure :=
  ⟨strategy, Renaming.on T, σ, τ, ∅, False⟩

variable {strategy : Strategy} {σ τ : Store}

theorem Store.Coherent.level (h : σ.Coherent T) (hgrows : σ.GrowsTo strategy τ)
    (hmemo : ∀ cell, τ.memo? cell = σ.memo? cell) :
    (Departure.level strategy T σ τ).Abreast (Stage.on T h.oneToOne) σ τ :=
  Departure.abreast_on rfl h (fun m hm => hgrows.has (h.has m hm)) (fun _ => nofun) fun t _ _ => hmemo t.1

/-- **What nothing refers to makes no difference.** -/
theorem warms_of_grows (h : σ.Coherent T) (hgrows : σ.GrowsTo strategy τ)
    (hmemo : ∀ cell, τ.memo? cell = σ.memo? cell) : Warms strategy T σ τ :=
  warms_of_abreast (d := Departure.level strategy T σ τ) rfl h.oneToOne le_rfl (h.level hgrows hmemo) (fun _ => nofun)
    hgrows.filled nofun (interprets_of_no_exempt rfl) (interprets_flip_of_no_exempt rfl none)

end Departures

end Treewalk
