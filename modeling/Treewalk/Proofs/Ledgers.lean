import Treewalk.Proofs.Combinators
import Treewalk.Proofs.Congruence

/-!
# Ledgers of functions

A ledger lists the functions that have been made, each at the place of its identity. What is entered in a ledger
(`Value.EnteredIn`) has only functions of the ledger, however deep they stand: an identity stands for one function.

* Values that are entered in one ledger and equal are the same (`Value.EnteredIn.eq_of_beq`).
* A run goes on with a ledger (`Accounts`) if it enters every function that it makes and leaves the other entries
  alone. The same run under audit, by checks against the ledger, has to be the same. Binding and loops keep this, frames
  do, and so do the operations on values, which make no functions.
-/

namespace Treewalk

open Run Value

/-! ## What is entered -/

section Entered

/-- The functions that have been made, each at the place of its identity. -/
abbrev Ledger : Type := List Value

mutual

/-- Every function in the value stands in the ledger, at the place of its identity. -/
inductive Value.EnteredIn (L : Ledger) : Value → Prop
  | unit : Value.EnteredIn L .unit
  | int (n : Int64) : Value.EnteredIn L (.int n)
  | bool (b : Bool) : Value.EnteredIn L (.bool b)
  | str (s : String) : Value.EnteredIn L (.str s)
  | list {vs : List Value} : (∀ v ∈ vs, Value.EnteredIn L v) → Value.EnteredIn L (.list vs)
  | dict {ps : List (Value × Value)} : (∀ p ∈ ps, Value.EnteredIn L p.1) → (∀ p ∈ ps, Value.EnteredIn L p.2) →
      Value.EnteredIn L (.dict ps)
  | closure {i : Nat} {self : Option String} {params : List String} {body : Expr} {r : Env} :
      L[i]? = some (.closure i self params body r) → (∀ p ∈ r, Binding.EnteredIn L p.2) →
      Value.EnteredIn L (.closure i self params body r)
  | primitive {f : Builtin} {vs : List Value} : (∀ v ∈ vs, Value.EnteredIn L v) → Value.EnteredIn L (.primitive f vs)

/-- Every function in what a name is bound to stands in the ledger. -/
inductive Binding.EnteredIn (L : Ledger) : Binding → Prop
  | value {v : Value} : Value.EnteredIn L v → Binding.EnteredIn L (.value v)
  | thunk {cell : Nat} {e : Expr} {r : Env} : (∀ p ∈ r, Binding.EnteredIn L p.2) →
      Binding.EnteredIn L (.thunk cell e r)

end

/-- Every function in the bindings stands in the ledger. -/
def Env.EnteredIn (L : Ledger) (r : Env) : Prop :=
  ∀ p ∈ r, p.2.EnteredIn L

/-- The ledger has all functions that have been made, and those in memo cells are among them. -/
structure Store.EnteredIn (L : Ledger) (σ : Store) : Prop where
  count : L.length = σ.nextId
  cells : ∀ {cell : Nat} {v : Value}, σ.memo? cell = some v → v.EnteredIn L

variable {L L' : Ledger}

/-- A ledger that goes on keeps its entries. -/
theorem Ledger.entry_of_prefix {i : Nat} {f : Value} (hL : L <+: L') (h : L[i]? = some f) : L'[i]? = some f := by
  obtain ⟨later, rfl⟩ := hL
  rw [List.getElem?_append_left (List.getElem?_eq_some_iff.1 h).1, h]

mutual

theorem Value.EnteredIn.mono (hL : L <+: L') : ∀ {v : Value}, v.EnteredIn L → v.EnteredIn L'
  | _, .unit => .unit
  | _, .int n => .int n
  | _, .bool b => .bool b
  | _, .str s => .str s
  | _, .list hvs => .list fun v hv => Value.EnteredIn.mono hL (hvs v hv)
  | _, .dict hks hvs =>
    .dict (fun p hp => Value.EnteredIn.mono hL (hks p hp)) fun p hp => Value.EnteredIn.mono hL (hvs p hp)
  | _, .closure hi hr => .closure (Ledger.entry_of_prefix hL hi) fun p hp => Binding.EnteredIn.mono hL (hr p hp)
  | _, .primitive hvs => .primitive fun v hv => Value.EnteredIn.mono hL (hvs v hv)

theorem Binding.EnteredIn.mono (hL : L <+: L') : ∀ {b : Binding}, b.EnteredIn L → b.EnteredIn L'
  | _, .value hv => .value (Value.EnteredIn.mono hL hv)
  | _, .thunk hr => .thunk fun p hp => Binding.EnteredIn.mono hL (hr p hp)

end

theorem Env.EnteredIn.mono {r : Env} (hL : L <+: L') (h : Env.EnteredIn L r) : Env.EnteredIn L' r :=
  fun p hp => (h p hp).mono hL

mutual

/-- **Equal values are the same**, if one ledger has their functions. -/
theorem Value.EnteredIn.eq : ∀ {a b : Value}, a.EnteredIn L → b.EnteredIn L → beq a b = true → a = b
  | .unit, b, _, _, h => by
    cases b with
    | unit => rfl
    | _ => cases h
  | .int m, b, _, _, h => by
    cases b with
    | int n => rw [eq_of_beq (show (m == n) = true from h)]
    | _ => cases h
  | .bool p, b, _, _, h => by
    cases b with
    | bool q => rw [eq_of_beq (show (p == q) = true from h)]
    | _ => cases h
  | .str s, b, _, _, h => by
    cases b with
    | str t => rw [eq_of_beq (show (s == t) = true from h)]
    | _ => cases h
  | .list as, b, .list has, hb, h => by
    cases hb with
    | list hbs => rw [Value.EnteredIn.eqAll has hbs h]
    | _ => cases h
  | .dict ps, b, .dict hks hvs, hb, h => by
    cases hb with
    | dict hls hws => rw [Value.EnteredIn.eqPairs hks hvs hls hws h]
    | _ => cases h
  | .closure i _ _ _ _, b, .closure hi _, hb, h => by
    cases hb with
    | @closure j _ _ _ _ hj _ =>
      -- the functions have one identity, so they are one entry
      obtain rfl : i = j := eq_of_beq (Bool.and_eq_true_iff.1 h).1
      exact Option.some.inj (hi.symm.trans hj)
    | _ => cases h
  | .primitive f as, b, .primitive has, hb, h => by
    cases hb with
    | @primitive g bs hbs =>
      obtain ⟨hfg, h⟩ := Bool.and_eq_true_iff.1 (show (f == g && beqAll as bs) = true from h)
      rw [eq_of_beq hfg, Value.EnteredIn.eqAll has hbs h]
    | _ => cases h

theorem Value.EnteredIn.eqAll : ∀ {as bs : List Value}, (∀ v ∈ as, v.EnteredIn L) → (∀ v ∈ bs, v.EnteredIn L) →
    beqAll as bs = true → as = bs
  | [], bs, _, _, h => by
    cases bs with
    | nil => rfl
    | cons => cases h
  | a :: as, bs, ha, hb, h => by
    cases bs with
    | nil => cases h
    | cons b bs =>
      obtain ⟨ha, has⟩ := List.forall_mem_cons.1 ha
      obtain ⟨hb, hbs⟩ := List.forall_mem_cons.1 hb
      obtain ⟨h, hs⟩ := Bool.and_eq_true_iff.1 (show (beq a b && beqAll as bs) = true from h)
      rw [Value.EnteredIn.eq ha hb h, Value.EnteredIn.eqAll has hbs hs]

theorem Value.EnteredIn.eqPairs : ∀ {ps qs : List (Value × Value)}, (∀ p ∈ ps, p.1.EnteredIn L) →
    (∀ p ∈ ps, p.2.EnteredIn L) → (∀ q ∈ qs, q.1.EnteredIn L) → (∀ q ∈ qs, q.2.EnteredIn L) →
    beqPairs ps qs = true → ps = qs
  | [], qs, _, _, _, _, h => by
    cases qs with
    | nil => rfl
    | cons => cases h
  | (k, v) :: ps, qs, hk, hv, hl, hw, h => by
    cases qs with
    | nil => cases h
    | cons q qs =>
      obtain ⟨l, w⟩ := q
      obtain ⟨hk, hks⟩ := List.forall_mem_cons.1 hk
      obtain ⟨hv, hvs⟩ := List.forall_mem_cons.1 hv
      obtain ⟨hl, hls⟩ := List.forall_mem_cons.1 hl
      obtain ⟨hw, hws⟩ := List.forall_mem_cons.1 hw
      obtain ⟨h, hs⟩ := Bool.and_eq_true_iff.1 (show (beq k l && beq v w && beqPairs ps qs) = true from h)
      obtain ⟨hkl, hvw⟩ := Bool.and_eq_true_iff.1 h
      have hp : (k, v) = (l, w) := Prod.ext (Value.EnteredIn.eq hk hl hkl) (Value.EnteredIn.eq hv hw hvw)
      rw [hp, Value.EnteredIn.eqPairs hks hvs hls hws hs]

end

end Entered

/-! ## Environments and stores -/

section Parts

variable {L : Ledger} {r : Env} {b : Binding} {σ : Store}

theorem Env.EnteredIn.extend (h : Env.EnteredIn L r) (name : String) (hb : b.EnteredIn L) :
    Env.EnteredIn L (r.extend name b) :=
  List.forall_mem_cons.2 ⟨hb, h⟩

theorem Env.EnteredIn.bindAll {bindings : List (String × Value)} (h : Env.EnteredIn L r)
    (hvs : ∀ p ∈ bindings, p.2.EnteredIn L) : Env.EnteredIn L (r.bindAll bindings) := by
  induction bindings generalizing r with
  | nil => exact h
  | cons p bindings ih =>
    obtain ⟨hv, hvs⟩ := List.forall_mem_cons.1 hvs
    exact ih (h.extend p.1 (.value hv)) hvs

theorem Env.EnteredIn.lookup {name : String} (h : Env.EnteredIn L r) (hb : r.lookup? name = some b) :
    b.EnteredIn L := by
  unfold Env.lookup? at hb
  split at hb
  · cases hb
  · obtain ⟨before, after, rfl, -⟩ := List.lookup_eq_some_iff.1 hb
    exact h (name, b) (by simp)

theorem Store.EnteredIn.newCell (h : σ.EnteredIn L) : { σ with cells := σ.cells.push none }.EnteredIn L where
  count := h.count
  cells {cell v} hv := by
    rw [Store.memo?_push] at hv
    exact h.cells hv

theorem Store.EnteredIn.fill {v : Value} (h : σ.EnteredIn L) (cell : Nat) (hv : v.EnteredIn L) :
    { σ with cells := σ.cells.set! cell (some v) }.EnteredIn L where
  count := h.count
  cells {other held} hheld := by
    rw [Store.memo?_set] at hheld
    split at hheld
    · cases hheld
      exact hv
    · exact h.cells hheld

/-- A new function is the next entry. -/
theorem Store.EnteredIn.newFunction (h : σ.EnteredIn L) (f : Value) :
    { σ with nextId := σ.nextId + 1 }.EnteredIn (L ++ [f]) where
  count := by rw [List.length_append, h.count, List.length_singleton]
  cells hv := (h.cells hv).mono (List.prefix_append L [f])

end Parts

/-! ## Runs that keep a ledger -/

section Accounts

variable {α β : Type}

/-- How a run leaves a ledger: with a result of which `P` holds, in a store that is entered in it. -/
inductive Outcome.Leaves (L : Ledger) (P : Ledger → α → Prop) : Outcome α → Prop
  | outOfFuel : Leaves L P .outOfFuel
  | done {a : α} {σ : Store} : P L a → σ.EnteredIn L → Leaves L P (.done a σ)
  | failed {failure : Failure} {σ : Store} : σ.EnteredIn L → Leaves L P (.failed failure σ)

/-- A run goes on with the ledger of the store that it starts in. Under audit, against that ledger or any one that goes
on from it, the run is the same. -/
def Accounts (L : Ledger) (P : Ledger → α → Prop) (m : Run α) (audit : Ledger → Run α) : Prop :=
  ∀ σ : Store, σ.EnteredIn L → ∃ L' : Ledger, L <+: L' ∧ (m σ).Leaves L' P ∧ ∀ K : Ledger, L' <+: K → audit K σ = m σ

/-- What holds as the ledger goes on. -/
def Ledger.Lasts (P : Ledger → α → Prop) : Prop :=
  ∀ ⦃L L' : Ledger⦄ ⦃a : α⦄, L <+: L' → P L a → P L' a

theorem Value.EnteredIn.lasts : Ledger.Lasts Value.EnteredIn :=
  fun _ _ _ hL h => h.mono hL

/-- Every function in a key and its value stands in the ledger. -/
def Ledger.HasPair (L : Ledger) (p : Value × Value) : Prop :=
  p.1.EnteredIn L ∧ p.2.EnteredIn L

theorem Ledger.HasPair.lasts : Ledger.Lasts Ledger.HasPair :=
  fun _ _ _ hL h => ⟨h.1.mono hL, h.2.mono hL⟩

theorem Value.EnteredIn.ofPairs {L : Ledger} {ps : Dict} (h : ∀ p ∈ ps, L.HasPair p) :
    Value.EnteredIn L (.dict ps) :=
  .dict (fun p hp => (h p hp).1) fun p hp => (h p hp).2

namespace Accounts

variable {L : Ledger} {P : Ledger → α → Prop} {Q : Ledger → β → Prop}

theorem pure {a : α} (h : P L a) : Accounts L P (Pure.pure a) fun _ => Pure.pure a :=
  fun _ hσ => ⟨L, List.prefix_rfl, .done h hσ, fun _ _ => rfl⟩

theorem fail (cause : Cause) : Accounts L P (Run.fail cause) fun _ => Run.fail cause :=
  fun _ hσ => ⟨L, List.prefix_rfl, .failed hσ, fun _ _ => rfl⟩

theorem bind {m : Run α} {M : Ledger → Run α} {f : α → Run β} {F : Ledger → α → Run β} (hm : Accounts L P m M)
    (hf : ∀ L' : Ledger, L <+: L' → ∀ a, P L' a → Accounts L' Q (f a) fun K => F K a) :
    Accounts L Q (m >>= f) fun K => M K >>= F K := by
  intro σ hσ
  obtain ⟨L₁, hL₁, hleaves, haudit⟩ := hm σ hσ
  simp only [bind_apply]
  generalize m σ = outcome at hleaves haudit ⊢
  cases hleaves with
  | outOfFuel => exact ⟨L₁, hL₁, .outOfFuel, fun K hK => by rw [haudit K hK]⟩
  | failed hσ₁ => exact ⟨L₁, hL₁, .failed hσ₁, fun K hK => by rw [haudit K hK]⟩
  | @done a σ₁ ha hσ₁ =>
    -- the second run goes on with the ledger that the first one leaves, so an audit against the last one suits both
    obtain ⟨L₂, hL₂, hleaves, haudit'⟩ := hf L₁ hL₁ a ha σ₁ hσ₁
    refine ⟨L₂, hL₁.trans hL₂, hleaves, fun K hK => ?_⟩
    rw [haudit K (hL₂.trans hK)]
    exact haudit' K hK

theorem map {m : Run α} {M : Ledger → Run α} {g : α → β} (hm : Accounts L P m M)
    (hg : ∀ L' a, P L' a → Q L' (g a)) : Accounts L Q (g <$> m) fun K => g <$> M K := by
  simp only [map_eq_pure_bind]
  exact bind hm fun L' _ a ha => pure (hg L' a ha)

theorem inFrame {limit : Option Nat} {e : Expr} {s : CallStack} {body : CallStack → Run α}
    {bodies : Ledger → CallStack → Run α} (h : Accounts L P (body (s.push e)) fun K => bodies K (s.push e)) :
    Accounts L P (inFrame limit e s body) fun K => inFrame limit e s (bodies K) := by
  rcases s.pushWithin_cases limit e with ⟨m, _, hp⟩ | hp
  · simp only [Run.inFrame, hp]
    exact fail _
  · intro σ hσ
    obtain ⟨L', hL, hleaves, haudit⟩ := h σ hσ
    dsimp only at haudit
    simp only [Run.inFrame, hp]
    refine ⟨L', hL, ?_, fun K hK => by rw [haudit K hK]⟩
    generalize body (s.push e) σ = outcome at hleaves
    cases hleaves with
    | outOfFuel => exact .outOfFuel
    | done ha hσ' => exact .done ha hσ'
    | failed hσ' => exact .failed hσ'

/-! ### Loops -/

theorem mapM {f : α → Run β} {F : Ledger → α → Run β} {as : List α} (hP : Ledger.Lasts P) (hQ : Ledger.Lasts Q)
    (has : ∀ a ∈ as, P L a) (hf : ∀ L' : Ledger, L <+: L' → ∀ a, P L' a → Accounts L' Q (f a) fun K => F K a) :
    Accounts L (fun L' bs => ∀ b ∈ bs, Q L' b) (as.mapM f) fun K => as.mapM (F K) := by
  induction as generalizing L with
  | nil =>
    simp only [List.mapM_nil]
    exact pure fun _ => nofun
  | cons a as ih =>
    obtain ⟨ha, has⟩ := List.forall_mem_cons.1 has
    simp only [List.mapM_cons]
    refine bind (hf L List.prefix_rfl a ha) fun L₁ hL₁ b hb => ?_
    refine bind (ih (fun a ha => hP hL₁ (has a ha)) fun L' hL' => hf L' (hL₁.trans hL')) fun L₂ hL₂ bs hbs => ?_
    exact pure (List.forall_mem_cons.2 ⟨hQ hL₂ hb, hbs⟩)

theorem foldlM {f : β → α → Run β} {F : Ledger → β → α → Run β} {as : List α} {b : β} (hP : Ledger.Lasts P)
    (has : ∀ a ∈ as, P L a) (hb : Q L b)
    (hf : ∀ L' : Ledger, L <+: L' → ∀ b a, Q L' b → P L' a → Accounts L' Q (f b a) fun K => F K b a) :
    Accounts L Q (as.foldlM f b) fun K => as.foldlM (F K) b := by
  induction as generalizing L b with
  | nil =>
    simp only [List.foldlM_nil]
    exact pure hb
  | cons a as ih =>
    obtain ⟨ha, has⟩ := List.forall_mem_cons.1 has
    simp only [List.foldlM_cons]
    refine bind (hf L List.prefix_rfl b a hb ha) fun L₁ hL₁ b₁ hb₁ => ?_
    exact ih (fun a ha => hP hL₁ (has a ha)) hb₁ fun L' hL' => hf L' (hL₁.trans hL')

theorem filterM {f : α → Run Bool} {F : Ledger → α → Run Bool} {as : List α} (hP : Ledger.Lasts P)
    (has : ∀ a ∈ as, P L a)
    (hf : ∀ L' : Ledger, L <+: L' → ∀ a, P L' a → Accounts L' (fun _ _ => True) (f a) fun K => F K a) :
    Accounts L (fun L' bs => ∀ b ∈ bs, P L' b) (as.filterM f) fun K => as.filterM (F K) := by
  induction as generalizing L with
  | nil =>
    simp only [filterM_nil]
    exact pure fun _ => nofun
  | cons a as ih =>
    obtain ⟨ha, has⟩ := List.forall_mem_cons.1 has
    simp only [filterM_cons]
    refine bind (hf L List.prefix_rfl a ha) fun L₁ hL₁ keep _ => ?_
    refine bind (ih (fun a ha => hP hL₁ (has a ha)) fun L' hL' => hf L' (hL₁.trans hL')) fun L₂ hL₂ bs hbs => pure ?_
    cases keep with
    | false => exact hbs
    | true => exact List.forall_mem_cons.2 ⟨hP (hL₁.trans hL₂) ha, hbs⟩

/-! ### Functions and cells -/

/-- A new function is entered in the ledger. -/
theorem newFunction {self : Option String} {params : List String} {body : Expr} {r : Env} (hr : Env.EnteredIn L r) :
    Accounts L Value.EnteredIn (do return .closure (← freshId) self params body r)
      fun _ => do return .closure (← freshId) self params body r := by
  intro σ hσ
  let f : Value := .closure σ.nextId self params body r
  refine ⟨L ++ [f], List.prefix_append L [f], .done (.closure ?_ ?_) (hσ.newFunction f), fun _ _ => rfl⟩
  · -- identities count the entries, so the new one is that of the last entry
    show (L ++ [f])[σ.nextId]? = some f
    rw [← hσ.count, List.getElem?_concat_length]
  · exact hr.mono (List.prefix_append L [f])

theorem newThunk {extended r : Env} (name : String) (e : Expr) (hext : Env.EnteredIn L extended)
    (hr : Env.EnteredIn L r) :
    Accounts L Env.EnteredIn (do return extended.extend name (.thunk (← newCell) e r))
      fun _ => do return extended.extend name (.thunk (← newCell) e r) :=
  fun _ hσ => ⟨L, List.prefix_rfl, .done (hext.extend name (.thunk hr)) hσ.newCell, fun _ _ => rfl⟩

theorem memo? (cell : Nat) :
    Accounts L (fun L' held => ∀ v, held = some v → v.EnteredIn L') (Run.memo? cell) fun _ => Run.memo? cell :=
  fun _ hσ => ⟨L, List.prefix_rfl, .done (fun _ => hσ.cells) hσ, fun _ _ => rfl⟩

theorem memoize (cell : Nat) {v : Value} (hv : v.EnteredIn L) :
    Accounts L Value.EnteredIn (Run.memoize cell v) fun _ => Run.memoize cell v := by
  intro σ hσ
  refine ⟨L, List.prefix_rfl, ?_, fun _ _ => rfl⟩
  unfold Run.memoize
  split
  · next hheld => exact .done (hσ.cells hheld) hσ
  · exact .done hv (hσ.fill cell hv)

/-! ### Operations -/

theorem note (tested : Bool) :
    Accounts L (fun _ _ => True) (noteIdentityTest tested) fun _ => noteIdentityTest tested :=
  fun _ hσ => ⟨L, List.prefix_rfl, .done trivial ⟨hσ.count, hσ.cells⟩, fun _ _ => rfl⟩

end Accounts

/-- What is entered in a ledger is the same as itself. -/
def Ledger.congruence (L : Ledger) : Congruence where
  value v v' := v = v' ∧ v.EnteredIn L
  ident := Eq
  keys := .any
  layer := by
    rintro v _ ⟨rfl, h⟩
    cases h with
    | unit => exact .unit
    | int n => exact .int n
    | bool b => exact .bool b
    | str s => exact .str s
    | list hvs => exact .list (List.forall₂_same.2 fun v hv => ⟨rfl, hvs v hv⟩)
    | dict hks hvs => exact .dict (List.forall₂_same.2 fun p hp => ⟨⟨rfl, hks p hp⟩, rfl, hvs p hp⟩)
    | closure => exact .closure _ _ rfl
    | primitive hvs => exact .primitive _ (List.forall₂_same.2 fun v hv => ⟨rfl, hvs v hv⟩)
  keys_of_dict _ := trivial
  int n := ⟨rfl, .int n⟩
  bool b := ⟨rfl, .bool b⟩
  str s := ⟨rfl, .str s⟩
  list {vs vs'} h := by
    have heq : vs = vs' := List.forall₂_eq_eq_eq ▸ h.imp fun _ _ => And.left
    subst heq
    exact ⟨rfl, .list fun v hv => (List.forall₂_same.1 h v hv).2⟩
  dict {ps ps'} h _ := by
    have heq : ps = ps' := List.forall₂_eq_eq_eq ▸ h.imp fun _ _ hp => Prod.ext hp.1.1 hp.2.1
    subst heq
    have h := List.forall₂_same.1 h
    exact ⟨rfl, .dict (fun p hp => (h p hp).1.2) fun p hp => (h p hp).2.2⟩

theorem Ledger.settles (L : Ledger) (byIdentity : Bool) : L.congruence.Settles byIdentity := by
  refine Or.inl ?_
  rintro _ _ _ _ rfl rfl
  rfl

namespace Accounts

variable {L : Ledger} {a b : Value}

/-- Operations make no functions. -/
theorem ofExcept {x : Except Cause Value} (h : SameAnswer L.congruence.value x x) :
    Accounts L Value.EnteredIn (Run.ofExcept x) fun _ => Run.ofExcept x := by
  cases h with
  | ok h => exact pure h.2
  | error cause => exact fail cause

theorem unary (op : Unary) (ha : a.EnteredIn L) : Accounts L Value.EnteredIn (Run.unary op a) fun _ => Run.unary op a :=
  ofExcept (Congruence.unary (S := L.congruence) op ⟨rfl, ha⟩)

theorem length (ha : a.EnteredIn L) :
    Accounts L Value.EnteredIn (Run.ofExcept a.length) fun _ => Run.ofExcept a.length :=
  ofExcept (Congruence.length (S := L.congruence) ⟨rfl, ha⟩)

theorem binary (op : Binary) (ha : a.EnteredIn L) (hb : b.EnteredIn L) :
    Accounts L Value.EnteredIn (Run.binary op a b) fun _ => Run.binary op a b := by
  refine bind (note _) fun L' hL _ _ => ofExcept ?_
  exact Congruence.binary (S := L'.congruence) op ⟨rfl, ha.mono hL⟩ ⟨rfl, hb.mono hL⟩ (L'.settles _)

theorem insert {key : Value} (hkey : key.EnteredIn L) (ha : a.EnteredIn L) (hb : b.EnteredIn L) :
    Accounts L Value.EnteredIn (Run.insert key a b) fun _ => Run.insert key a b := by
  refine bind (note _) fun L' hL _ _ => ofExcept ?_
  exact Congruence.insert (S := L'.congruence) ⟨rfl, hkey.mono hL⟩ ⟨rfl, ha.mono hL⟩ ⟨rfl, hb.mono hL⟩ (L'.settles _)

theorem addPair {ps : Dict} {key : Value} (hps : ∀ p ∈ ps, L.HasPair p) (hkey : key.EnteredIn L)
    (ha : a.EnteredIn L) :
    Accounts L (fun L' qs => ∀ q ∈ qs, L'.HasPair q) (Run.addPair ps key a) fun _ => Run.addPair ps key a := by
  refine bind (note _) fun L' hL _ _ => pure ?_
  have hps : List.Forall₂ L'.congruence.pair ps ps :=
    List.forall₂_same.2 fun p hp => ⟨⟨rfl, (hps p hp).1.mono hL⟩, rfl, (hps p hp).2.mono hL⟩
  have hinsert := Congruence.insertPair (S := L'.congruence) ⟨rfl, hkey.mono hL⟩ ⟨rfl, ha.mono hL⟩ hps (L'.settles _)
  exact fun p hp => ⟨(List.forall₂_same.1 hinsert p hp).1.2, (List.forall₂_same.1 hinsert p hp).2.2⟩

variable {f : Value → Run Value} {F : Ledger → Value → Run Value}

theorem mapOver (ha : a.EnteredIn L)
    (hf : ∀ L' : Ledger, L <+: L' → ∀ v, v.EnteredIn L' → Accounts L' Value.EnteredIn (f v) fun K => F K v) :
    Accounts L Value.EnteredIn (Run.mapOver f a) fun K => Run.mapOver (F K) a := by
  cases ha with
  | list hvs => exact map (mapM Value.EnteredIn.lasts Value.EnteredIn.lasts hvs hf) fun _ _ => .list
  | dict hks hvs =>
    have hps : ∀ p ∈ _, L.HasPair p := fun p hp => ⟨hks p hp, hvs p hp⟩
    refine map (mapM Ledger.HasPair.lasts Ledger.HasPair.lasts hps fun L' hL p hp => ?_) fun _ _ => .ofPairs
    exact bind (hf L' hL p.2 hp.2) fun L₁ hL₁ v hv => pure ⟨hp.1.mono hL₁, hv⟩
  | _ => exact fail _

theorem filterOver {f : Value → Run Bool} {F : Ledger → Value → Run Bool} (ha : a.EnteredIn L)
    (hf : ∀ L' : Ledger, L <+: L' → ∀ v, v.EnteredIn L' → Accounts L' (fun _ _ => True) (f v) fun K => F K v) :
    Accounts L Value.EnteredIn (Run.filterOver f a) fun K => Run.filterOver (F K) a := by
  cases ha with
  | list hvs => exact map (filterM Value.EnteredIn.lasts hvs hf) fun _ _ => .list
  | dict hks hvs =>
    have hps : ∀ p ∈ _, L.HasPair p := fun p hp => ⟨hks p hp, hvs p hp⟩
    exact map (filterM Ledger.HasPair.lasts hps fun L' hL p hp => hf L' hL p.2 hp.2) fun _ _ => .ofPairs
  | _ => exact fail _

theorem foldAll {f : Value → Value → Run Value} {F : Ledger → Value → Value → Run Value} {vs : List Value}
    (hvs : ∀ v ∈ vs, v.EnteredIn L)
    (hf : ∀ L' : Ledger, L <+: L' → ∀ acc v, acc.EnteredIn L' → v.EnteredIn L' →
      Accounts L' Value.EnteredIn (f acc v) fun K => F K acc v) :
    Accounts L Value.EnteredIn (Run.foldAll f vs) fun K => Run.foldAll (F K) vs := by
  cases vs with
  | nil => exact fail _
  | cons v vs =>
    obtain ⟨hv, hvs⟩ := List.forall_mem_cons.1 hvs
    exact foldlM Value.EnteredIn.lasts hvs hv hf

theorem foldOver {f : Value → Value → Run Value} {F : Ledger → Value → Value → Run Value} (ha : a.EnteredIn L)
    (hf : ∀ L' : Ledger, L <+: L' → ∀ acc v, acc.EnteredIn L' → v.EnteredIn L' →
      Accounts L' Value.EnteredIn (f acc v) fun K => F K acc v) :
    Accounts L Value.EnteredIn (Run.foldOver f a) fun K => Run.foldOver (F K) a := by
  cases ha with
  | list hvs => exact foldAll hvs hf
  | dict _ hvs => exact foldAll (List.forall_mem_map.2 hvs) hf
  | _ => exact fail _

end Accounts

end Accounts

end Treewalk
