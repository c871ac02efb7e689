import Mathlib
import Treewalk.Proofs.IdentityTests
import Treewalk.Proofs.Resemblance

/-!
# Simulations between evaluators

A `Simulation` says how two evaluators are related: their expressions, environments, values and stores, and what they
are allowed to differ in. What is related may depend on a world, such as a typing of the memo cells, that grows as the
evaluators allocate.

* `Simulation.Simulates`: each outcome of a run is followed by the same outcome of a family of runs, one for each amount
  of fuel, from some fuel on; unless the outcome is excused.
* Binding and loops keep this (`Simulation.bind`, `Simulation.mapM`, `Simulation.foldlM`, `Simulation.filterM`), frames
  do (`Simulation.inFrame`), and so do the operations on values (`Simulation.unary`, `Simulation.binary`,
  `Simulation.insert`).
-/

namespace Treewalk

open Run Filter

/-! ## Simulations -/

section Definitions

/-- One layer of a relation between expressions: expressions of one form, whose parts are related by `X` and whose
declarations by `D`. -/
inductive Expr.Layer (X : Expr → Expr → Prop) (D : Decl → Decl → Prop) : Expr → Expr → Prop
  | unit : Layer X D .unit .unit
  | integer (n : Int64) : Layer X D (.integer n) (.integer n)
  | boolean (b : Bool) : Layer X D (.boolean b) (.boolean b)
  | string (s : String) : Layer X D (.string s) (.string s)
  | list {es es' : List Expr} : List.Forall₂ X es es' → Layer X D (.list es) (.list es')
  | dict {ps ps' : List (Expr × Expr)} : List.Forall₂ X (ps.map (·.1)) (ps'.map (·.1)) →
      List.Forall₂ X (ps.map (·.2)) (ps'.map (·.2)) → Layer X D (.dict ps) (.dict ps')
  | symbol (name : String) : Layer X D (.symbol name) (.symbol name)
  | unary {e e' : Expr} (op : Unary) : X e e' → Layer X D (.unary op e) (.unary op e')
  | binary {l l' r r' : Expr} (op : Binary) : X l l' → X r r' → Layer X D (.binary op l r) (.binary op l' r')
  | insert {k k' v v' d d' : Expr} : X k k' → X v v' → X d d' → Layer X D (.insert k v d) (.insert k' v' d')
  | combine {c c' f f' : Expr} (op : Combinator) : X c c' → X f f' → Layer X D (.combine op c f) (.combine op c' f')
  | branch {c c' y y' n n' : Expr} : X c c' → X y y' → X n n' → Layer X D (.branch c y n) (.branch c' y' n')
  | letIn {d d' : Decl} {body body' : Expr} : D d d' → X body body' → Layer X D (.letIn d body) (.letIn d' body')
  | declare {d d' : Decl} : D d d' → Layer X D (.declare d) (.declare d')
  | lambda {body body' : Expr} (params : List String) : X body body' →
      Layer X D (.lambda params body) (.lambda params body')
  | apply {f f' : Expr} {es es' : List Expr} : X f f' → List.Forall₂ X es es' → Layer X D (.apply f es) (.apply f' es')
  | sequence {es es' : List Expr} : List.Forall₂ X es es' → Layer X D (.sequence es) (.sequence es')
  | pipe {f f' e e' : Expr} : X f f' → X e e' → Layer X D (.pipe f e) (.pipe f' e')

theorem Expr.Layer.refl (e : Expr) : Expr.Layer Eq Eq e e := by
  have hlist : ∀ es : List Expr, List.Forall₂ Eq es es := fun es => List.forall₂_refl es
  cases e with
  | dict ps => exact .dict (hlist _) (hlist _)
  | list es => exact .list (hlist es)
  | apply f es => exact .apply rfl (hlist es)
  | sequence es => exact .sequence (hlist es)
  | _ => constructor <;> rfl

/-- Expressions that are the same are of one form. -/
theorem Expr.layer_of_eq {e e' : Expr} (h : e = e') : Expr.Layer Eq Eq e e' ∨ False :=
  Or.inl (h ▸ Expr.Layer.refl e)

/-- One layer of a relation between declarations: declarations of one form that bind the same names to what is related
by `X`. -/
inductive Decl.Layer (X : Expr → Expr → Prop) : Decl → Decl → Prop
  | eager {bs bs' : List (String × Expr)} : bs.map (·.1) = bs'.map (·.1) →
      List.Forall₂ X (bs.map (·.2)) (bs'.map (·.2)) → Layer X (.eager bs) (.eager bs')
  | lazy {bs bs' : List (String × Expr)} : bs.map (·.1) = bs'.map (·.1) →
      List.Forall₂ X (bs.map (·.2)) (bs'.map (·.2)) → Layer X (.lazy bs) (.lazy bs')
  | recursive {e e' : Expr} (name : String) : X e e' → Layer X (.recursive name e) (.recursive name e')
  | lazyRecursive {e e' : Expr} (name : String) : X e e' → Layer X (.lazyRecursive name e) (.lazyRecursive name e')

theorem Decl.Layer.refl (d : Decl) : Decl.Layer Eq d d := by
  cases d with
  | eager bs => exact .eager rfl (List.forall₂_refl _)
  | lazy bs => exact .lazy rfl (List.forall₂_refl _)
  | recursive name e => exact .recursive name rfl
  | lazyRecursive name e => exact .lazyRecursive name rfl

/-- An expression that hands values on, to names or to a function. -/
def Expr.isCall : Expr → Bool
  | .letIn _ _ | .apply _ _ | .pipe _ _ => true
  | _ => false

theorem Expr.isCall_of_false {e e' : Expr} (h : False) : e.isCall ∧ e'.isCall :=
  h.elim

/-- Failures of one cause. -/
def Failure.SameCause (f f' : Failure) : Prop :=
  f.cause = f'.cause

theorem Failure.SameCause.refl (f : Failure) : f.SameCause f :=
  Eq.refl f.cause

theorem Failure.SameCause.attach {f f' : Failure} (s s' : CallStack) (h : f.SameCause f') :
    (s.attach f).SameCause (s'.attach f') := by
  unfold Failure.SameCause
  rw [CallStack.attach_cause, CallStack.attach_cause]
  exact h

/-- How the evaluator with the settings `left` is related to the one with the settings `right`, in worlds of the type
`W`. -/
structure Simulation (W : Type) [Preorder W] where
  left : Config
  right : Config
  expr : Expr → Expr → Prop
  decl : Decl → Decl → Prop
  /-- Related calls that need not be of one form. -/
  recast : Expr → Expr → Prop := fun _ _ => False
  /-- The identities of functions. -/
  ident : W → Nat → Nat → Prop
  value : W → Value → Value → Prop
  env : W → Env → Env → Prop
  store : W → Store → Store → Prop
  stack : CallStack → CallStack → Prop
  failure : Failure → Failure → Prop
  /-- The failures of the left evaluator that the right one need not follow. -/
  pardons : Failure → Prop
  /-- Whether identities are related one to one. Otherwise the right evaluator follows only until the left one tests
  identities. -/
  faithful : Prop
  expr_layer : ∀ {e e' : Expr}, expr e e' → Expr.Layer expr decl e e' ∨ recast e e'
  recast_calls : ∀ {e e' : Expr}, recast e e' → e.isCall ∧ e'.isCall := by exact Expr.isCall_of_false
  value_iff : ∀ (w : W) (v v' : Value), value w v v' ↔ Value.Layer (value w)
    (fun f f' => ident w f.1 f'.1 ∧ expr f.2.1 f'.2.1 ∧ env w f.2.2 f'.2.2) v v'
  ident_faithful : faithful → ∀ {w : W} {i i' j j' : Nat}, ident w i i' → ident w j j' → (i == j) = (i' == j')
  value_mono : ∀ {w w' : W} {v v' : Value}, w ≤ w' → value w v v' → value w' v v'
  env_mono : ∀ {w w' : W} {r r' : Env}, w ≤ w' → env w r r' → env w' r r'
  env_bind : ∀ {w : W} {r r' : Env} {v v' : Value} (name : String), env w r r' → value w v v' →
    env w (r.bind name v) (r'.bind name v')
  fresh : ∀ {w : W} {σ τ : Store}, store w σ τ → ∃ w', w ≤ w' ∧ ident w' σ.nextId τ.nextId ∧
    store w' { σ with nextId := σ.nextId + 1 } { τ with nextId := τ.nextId + 1 }
  note : faithful → ∀ {w : W} {σ τ : Store} (tested : Bool), store w σ τ →
    store w { σ with testedIdentity := σ.testedIdentity || tested }
      { τ with testedIdentity := τ.testedIdentity || tested }
  failure_refl : ∀ f, failure f f
  frame : ∀ {s s' : CallStack} {e e' : Expr}, stack s s' → expr e e' →
    (∃ cause, s.pushWithin left.maxDepth e = .error cause ∧
      (pardons ⟨cause, none⟩ ∨ s'.pushWithin right.maxDepth e' = .error cause)) ∨
      s.pushWithin left.maxDepth e = .ok (s.push e) ∧ s'.pushWithin right.maxDepth e' = .ok (s'.push e') ∧
        stack (s.push e) (s'.push e')
  attach : ∀ {s s' : CallStack} {f f' : Failure}, stack s s' → failure f f' → failure (s.attach f) (s'.attach f')
  pardons_attach : ∀ (s : CallStack) {f : Failure}, pardons f → pardons (s.attach f)

namespace Simulation

variable {W : Type} [Preorder W] (S : Simulation W) {α α' β β' : Type}

/-- The resemblance of values in a world. -/
def resemblance (w : W) : Resemblance where
  value := S.value w
  closure f f' := S.ident w f.1 f'.1 ∧ S.expr f.2.1 f'.2.1 ∧ S.env w f.2.2 f'.2.2
  value_iff := S.value_iff w

/-- An outcome that need not be followed. -/
inductive Excused : Outcome α → Prop
  | outOfFuel : Excused .outOfFuel
  | tested {outcome : Outcome α} : ¬S.faithful → outcome.Tested → Excused outcome
  | pardoned {failure : Failure} {store : Store} : S.pardons failure → Excused (.failed failure store)

/-- From some fuel on, a family of outcomes is related to an outcome, in a world that has grown from `w`. -/
inductive Follows (w : W) (R : W → α → α' → Prop) : Outcome α → (Nat → Outcome α') → Prop
  | excused {outcome : Outcome α} {outcomes : Nat → Outcome α'} : S.Excused outcome → Follows w R outcome outcomes
  | done {w' : W} {a : α} {a' : α'} {σ τ : Store} {outcomes : Nat → Outcome α'} : w ≤ w' → R w' a a' →
      S.store w' σ τ → (∀ᶠ k in atTop, outcomes k = .done a' τ) → Follows w R (.done a σ) outcomes
  | failed {w' : W} {f f' : Failure} {σ τ : Store} {outcomes : Nat → Outcome α'} : w ≤ w' → S.failure f f' →
      S.store w' σ τ → (∀ᶠ k in atTop, outcomes k = .failed f' τ) → Follows w R (.failed f σ) outcomes

/-- A family of runs follows a run from all related stores. -/
def Simulates (w : W) (R : W → α → α' → Prop) (m : Run α) (ms : Nat → Run α') : Prop :=
  ∀ σ τ, S.store w σ τ → S.Follows w R (m σ) fun k => ms k τ

variable {S} {w : W} {R : W → α → α' → Prop} {R' : W → β → β' → Prop}

theorem Follows.mono {w' : W} {outcome : Outcome α} {outcomes : Nat → Outcome α'} (hw : w ≤ w')
    (h : S.Follows w' R outcome outcomes) : S.Follows w R outcome outcomes := by
  cases h with
  | excused h => exact .excused h
  | done hw' ha hstore h => exact .done (hw.trans hw') ha hstore h
  | failed hw' hf hstore h => exact .failed (hw.trans hw') hf hstore h

/-- A result that is found without a test of identity is followed. -/
theorem Follows.exists_done {a : α} {σ : Store} {outcomes : Nat → Outcome α'}
    (h : S.Follows w R (.done a σ) outcomes) (huntested : σ.testedIdentity = false) :
    ∃ w' a' τ, w ≤ w' ∧ R w' a a' ∧ S.store w' σ τ ∧ ∀ᶠ k in atTop, outcomes k = .done a' τ := by
  cases h with
  | excused hexcused =>
    cases hexcused with
    | tested _ htested => exact absurd htested (Outcome.not_tested_done.2 huntested)
  | @done w' _ a' _ τ _ hw ha hstore hdone => exact ⟨w', a', τ, hw, ha, hstore, hdone⟩

/-- What else is known of the results of both sides. -/
theorem Follows.imp {Q : W → α → α' → Prop} {outcome : Outcome α} {outcomes : Nat → Outcome α'}
    (h : S.Follows w R outcome outcomes)
    (hQ : ∀ w' a a' σ τ, outcome = .done a σ → (∀ᶠ k in atTop, outcomes k = .done a' τ) → S.store w' σ τ →
      R w' a a' → Q w' a a') : S.Follows w Q outcome outcomes := by
  cases h with
  | excused h => exact .excused h
  | done hw ha hstore h => exact .done hw (hQ _ _ _ _ _ rfl h hstore ha) hstore h
  | failed hw hf hstore h => exact .failed hw hf hstore h

end Simulation

end Definitions

/-! ## Runs that simulate each other -/

section Runs

namespace Simulation

variable {W : Type} [Preorder W] {S : Simulation W} {α α' β β' : Type} {w : W} {R : W → α → α' → Prop}
  {R' : W → β → β' → Prop}

theorem pure {a : α} {a' : α'} (h : R w a a') : S.Simulates w R (Pure.pure a) fun _ => Pure.pure a' :=
  fun _ _ hstore => .done le_rfl h hstore (Eventually.of_forall fun _ => rfl)

theorem fail (cause : Cause) : S.Simulates w R (Run.fail cause) fun _ => Run.fail cause :=
  fun _ _ hstore => .failed le_rfl (S.failure_refl ⟨cause, none⟩) hstore (Eventually.of_forall fun _ => rfl)

/-- Two runs in a row. The second one of the left evaluator has to remember a test of identity in the first. -/
theorem bind {m : Run α} {ms : Nat → Run α'} {f : α → Run β} {fs : Nat → α' → Run β'}
    (hremembers : ∀ a, (f a).Remembers) (hm : S.Simulates w R m ms)
    (hf : ∀ w', w ≤ w' → ∀ a a', R w' a a' → S.Simulates w' R' (f a) fun k => fs k a') :
    S.Simulates w R' (m >>= f) fun k => ms k >>= fs k := by
  intro σ τ hstore
  have h := hm σ τ hstore
  simp only [bind_apply]
  generalize m σ = outcome at h
  cases h with
  | excused h =>
    refine .excused ?_
    cases h with
    | outOfFuel => exact .outOfFuel
    | pardoned h => exact .pardoned h
    | tested hfaithful h =>
      cases outcome with
      | outOfFuel => exact .outOfFuel
      | failed failure σ' => exact .tested hfaithful h
      | done a σ' => exact .tested hfaithful ((hremembers a).tested σ' h)
  | failed hw hfail hstore' h => exact .failed hw hfail hstore' (h.mono fun k hk => by simp only [hk])
  | @done w' a a' σ' τ' _ hw ha hstore' h =>
    have hnext := (hf w' hw a a' ha σ' τ' hstore').mono hw
    dsimp only
    generalize f a σ' = outcome' at hnext
    cases hnext with
    | excused h' => exact .excused h'
    | done hw' hb hstore'' h' =>
      refine .done hw' hb hstore'' ((h.and h').mono fun k hk => ?_)
      simp only [hk.1]
      exact hk.2
    | failed hw' hfail hstore'' h' =>
      refine .failed hw' hfail hstore'' ((h.and h').mono fun k hk => ?_)
      simp only [hk.1]
      exact hk.2

/-- The left side runs ahead. -/
theorem bind_left {Q : W → α → Prop} {m : Run α} {f : α → Run β} {ms : Nat → Run β'}
    (hremembers : ∀ a, (f a).Remembers) (hm : S.Simulates w (fun w' a (_ : Unit) => Q w' a) m fun _ => Pure.pure ())
    (hf : ∀ w', w ≤ w' → ∀ a, Q w' a → S.Simulates w' R' (f a) ms) : S.Simulates w R' (m >>= f) ms := by
  have h : S.Simulates w R' (m >>= f) fun k => Pure.pure () >>= fun _ => ms k :=
    bind hremembers hm fun w' hw a _ ha => hf w' hw a ha
  exact h

/-- The right side runs ahead. -/
theorem bind_right {Q : W → α' → Prop} {m : Run β} [m.Remembers] {ms : Nat → Run α'} {fs : Nat → α' → Run β'}
    (hm : S.Simulates w (fun w' (_ : Unit) a' => Q w' a') (Pure.pure ()) ms)
    (hf : ∀ w', w ≤ w' → ∀ a', Q w' a' → S.Simulates w' R' m fun k => fs k a') :
    S.Simulates w R' m fun k => ms k >>= fs k :=
  bind (f := fun _ => m) inferInstance hm fun w' hw _ a' ha => hf w' hw a' ha

/-- A run whose result is handed on. -/
theorem map {m : Run α} {ms : Nat → Run α'} {g : α → β} {g' : α' → β'} (hm : S.Simulates w R m ms)
    (hg : ∀ w' a a', R w' a a' → R' w' (g a) (g' a')) : S.Simulates w R' (g <$> m) fun k => g' <$> ms k := by
  simp only [map_eq_pure_bind]
  exact bind inferInstance hm fun w' _ a a' h => pure (hg w' a a' h)

/-- Opening a frame. -/
theorem inFrame {e e' : Expr} {s s' : CallStack} {body : CallStack → Run α} {bodies : Nat → CallStack → Run α'}
    (he : S.expr e e') (hs : S.stack s s')
    (h : S.stack (s.push e) (s'.push e') → S.Simulates w R (body (s.push e)) fun k => bodies k (s'.push e')) :
    S.Simulates w R (inFrame S.left.maxDepth e s body) fun k => inFrame S.right.maxDepth e' s' (bodies k) := by
  intro σ τ hstore
  rcases S.frame hs he with ⟨cause, hp, hpardon | hp'⟩ | ⟨hp, hp', hs'⟩
  · simp only [Run.inFrame, hp]
    exact .excused (.pardoned hpardon)
  · simp only [Run.inFrame, hp, hp']
    exact fail cause σ τ hstore
  · have h := h hs' σ τ hstore
    simp only [Run.inFrame, hp, hp']
    generalize body (s.push e) σ = outcome at h
    cases h with
    | excused h =>
      refine .excused ?_
      cases h with
      | outOfFuel => exact .outOfFuel
      | pardoned h => exact .pardoned (S.pardons_attach _ h)
      | tested hfaithful h =>
        refine .tested hfaithful ?_
        cases outcome <;> exact h
    | done hw ha hstore' h => exact .done hw ha hstore' (h.mono fun k hk => by simp only [hk])
    | failed hw hf hstore' h => exact .failed hw (S.attach hs' hf) hstore' (h.mono fun k hk => by simp only [hk])

/-! ### Loops -/

section Loops

/-- A relation that is kept as the world grows. -/
def Grows (Q : W → α → α' → Prop) : Prop :=
  ∀ ⦃w w' : W⦄ ⦃a : α⦄ ⦃a' : α'⦄, w ≤ w' → Q w a a' → Q w' a a'

theorem Grows.forall₂ {Q : W → α → α' → Prop} (hQ : Grows Q) :
    Grows fun w (as : List α) (as' : List α') => List.Forall₂ (Q w) as as' :=
  fun _ _ _ _ hw h => h.imp fun _ _ => @hQ _ _ _ _ hw

variable {Q : W → α → α' → Prop}

theorem mapM {f : α → Run β} {fs : Nat → α' → Run β'} {as : List α} {as' : List α'} (hQ : Grows Q) (hR : Grows R')
    (hremembers : ∀ a, (f a).Remembers) (has : List.Forall₂ (Q w) as as')
    (hf : ∀ w', w ≤ w' → ∀ a a', Q w' a a' → S.Simulates w' R' (f a) fun k => fs k a') :
    S.Simulates w (fun w' => List.Forall₂ (R' w')) (as.mapM f) fun k => as'.mapM (fs k) := by
  induction as generalizing w as' with
  | nil =>
    cases has
    simp only [List.mapM_nil]
    exact pure .nil
  | cons a as ih =>
    cases has with
    | cons ha has =>
      simp only [List.mapM_cons]
      refine bind inferInstance (hf w le_rfl _ _ ha) fun w₁ hw₁ b b' hb => ?_
      refine bind inferInstance (ih (hQ.forall₂ hw₁ has) fun w' hw' => hf w' (hw₁.trans hw')) ?_
      exact fun w₂ hw₂ bs bs' hbs => pure (.cons (hR hw₂ hb) hbs)

theorem foldlM {f : β → α → Run β} {fs : Nat → β' → α' → Run β'} {as : List α} {as' : List α'} {b : β} {b' : β'}
    (hQ : Grows Q) (hremembers : ∀ b a, (f b a).Remembers) (has : List.Forall₂ (Q w) as as') (hb : R' w b b')
    (hf : ∀ w', w ≤ w' → ∀ a a' b b', Q w' a a' → R' w' b b' → S.Simulates w' R' (f b a) fun k => fs k b' a') :
    S.Simulates w R' (as.foldlM f b) fun k => as'.foldlM (fs k) b' := by
  induction as generalizing w as' b b' with
  | nil =>
    cases has
    simp only [List.foldlM_nil]
    exact pure hb
  | cons a as ih =>
    cases has with
    | cons ha has =>
      simp only [List.foldlM_cons]
      refine bind inferInstance (hf w le_rfl _ _ _ _ ha hb) fun w₁ hw₁ b₁ b₁' hb₁ => ?_
      exact ih (hQ.forall₂ hw₁ has) hb₁ fun w' hw' => hf w' (hw₁.trans hw')

theorem filterAuxM {f : α → Run Bool} {fs : Nat → α' → Run Bool} {as kept : List α} {as' kept' : List α'}
    (hQ : Grows Q) (hremembers : ∀ a, (f a).Remembers) (has : List.Forall₂ (Q w) as as')
    (hkept : List.Forall₂ (Q w) kept kept')
    (hf : ∀ w', w ≤ w' → ∀ a a', Q w' a a' → S.Simulates w' (fun _ => Eq) (f a) fun k => fs k a') :
    S.Simulates w (fun w' => List.Forall₂ (Q w')) (as.filterAuxM f kept) fun k => as'.filterAuxM (fs k) kept' := by
  induction as generalizing w as' kept kept' with
  | nil =>
    cases has
    simp only [List.filterAuxM]
    exact pure hkept
  | cons a as ih =>
    cases has with
    | cons ha has =>
      simp only [List.filterAuxM]
      refine bind inferInstance (hf w le_rfl _ _ ha) fun w₁ hw₁ b b' hb => ?_
      subst hb
      refine ih (hQ.forall₂ hw₁ has) ?_ fun w' hw' => hf w' (hw₁.trans hw')
      cases b with
      | true => exact .cons (hQ hw₁ ha) (hQ.forall₂ hw₁ hkept)
      | false => exact hQ.forall₂ hw₁ hkept

theorem filterM {f : α → Run Bool} {fs : Nat → α' → Run Bool} {as : List α} {as' : List α'}
    (hQ : Grows Q) (hremembers : ∀ a, (f a).Remembers) (has : List.Forall₂ (Q w) as as')
    (hf : ∀ w', w ≤ w' → ∀ a a', Q w' a a' → S.Simulates w' (fun _ => Eq) (f a) fun k => fs k a') :
    S.Simulates w (fun w' => List.Forall₂ (Q w')) (as.filterM f) fun k => as'.filterM (fs k) := by
  simp only [List.filterM]
  refine bind inferInstance (filterAuxM hQ hremembers has .nil hf) fun w' _ bs bs' hbs => ?_
  exact pure (List.rel_reverse hbs)

end Loops

/-! ### Operations -/

section Operations

theorem exact_resemblance (h : S.faithful) (w : W) : (S.resemblance w).Exact :=
  fun hf hg => S.ident_faithful h hf.1 hg.1

theorem ofExcept {x : Except Cause α} {x' : Except Cause α'} (h : SameAnswer (R w) x x') :
    S.Simulates w R (Run.ofExcept x) fun _ => Run.ofExcept x' := by
  cases h with
  | ok h => exact pure h
  | error cause => exact fail cause

theorem freshId : S.Simulates w S.ident Run.freshId fun _ => Run.freshId := by
  intro σ τ hstore
  obtain ⟨w', hw, hident, hstore'⟩ := S.fresh hstore
  exact .done hw hident hstore' (Eventually.of_forall fun _ => rfl)

/-- A run that first notes whether it tests identities. -/
theorem noting {tested tested' : Bool} {m : Run α} {m' : Run α'} [m.Remembers]
    (hsame : (S.resemblance w).Settles tested → tested' = tested)
    (hm : (S.resemblance w).Settles tested → S.Simulates w R m fun _ => m') :
    S.Simulates w R (noteIdentityTest tested >>= fun _ => m) fun _ => noteIdentityTest tested' >>= fun _ => m' := by
  intro σ τ hstore
  by_cases hfaithful : S.faithful
  · have hsettles : (S.resemblance w).Settles tested := Or.inl (exact_resemblance hfaithful w)
    rw [hsame hsettles]
    exact hm hsettles _ _ (S.note hfaithful tested hstore)
  · cases tested with
    | true => exact .excused (.tested hfaithful (Remembers.tested (m := m) _ (Bool.or_true _)))
    | false =>
      rw [hsame (Or.inr rfl)]
      have hnote : ∀ σ : Store, { σ with testedIdentity := σ.testedIdentity || false } = σ := by
        intro σ
        rw [Bool.or_false]
      have h := hm (Or.inr rfl) σ τ hstore
      rw [← hnote σ, ← hnote τ] at h
      exact h

variable {a a' b b' : Value}

theorem unary (op : Unary) (ha : S.value w a a') : S.Simulates w S.value (Run.unary op a) fun _ => Run.unary op a' :=
  ofExcept (Resemblance.unary (S := S.resemblance w) op ha)

theorem binary (op : Binary) (ha : S.value w a a') (hb : S.value w b b') :
    S.Simulates w S.value (Run.binary op a b) fun _ => Run.binary op a' b' :=
  noting (Resemblance.binary_testsIdentity_eq (S := S.resemblance w) op ha hb)
    fun hs => ofExcept (Resemblance.binary (S := S.resemblance w) op ha hb hs)

theorem insert {key key' : Value} (hkey : S.value w key key') (ha : S.value w a a') (hb : S.value w b b') :
    S.Simulates w S.value (Run.insert key a b) fun _ => Run.insert key' a' b' :=
  noting (Resemblance.searchTestsIdentity_eq (S := S.resemblance w) hkey hb)
    fun hs => ofExcept (Resemblance.insert (S := S.resemblance w) hkey ha hb hs)

/-- Dictionaries that are related pair by pair. -/
def pairs (S : Simulation W) (w : W) (ps ps' : Dict) : Prop :=
  List.Forall₂ (S.resemblance w).pair ps ps'

theorem addPair {ps ps' : Dict} {key key' : Value} (hps : S.pairs w ps ps') (hkey : S.value w key key')
    (ha : S.value w a a') : S.Simulates w S.pairs (Run.addPair ps key a) fun _ => Run.addPair ps' key' a' :=
  noting (Resemblance.search_eq (S := S.resemblance w) hkey hps)
    fun hs => pure (Resemblance.insertPair (S := S.resemblance w) hkey ha hps hs)

theorem grows_pairs : Grows S.pairs :=
  fun _ _ _ _ hw h => h.imp fun _ _ hp => ⟨S.value_mono hw hp.1, S.value_mono hw hp.2⟩

theorem mapOver {f : Value → Run Value} {fs : Nat → Value → Run Value} (hremembers : ∀ v, (f v).Remembers)
    (ha : S.value w a a')
    (hf : ∀ w', w ≤ w' → ∀ v v', S.value w' v v' → S.Simulates w' S.value (f v) fun k => fs k v') :
    S.Simulates w S.value (Run.mapOver f a) fun k => Run.mapOver (fs k) a' := by
  cases (S.value_iff w a a').1 ha with
  | list hvs =>
    refine map (mapM @S.value_mono @S.value_mono hremembers hvs hf) fun w' vs vs' => ?_
    exact Resemblance.of_list (S := S.resemblance w')
  | dict hps =>
    refine map (R := S.pairs) ?_ fun w' ps ps' => Resemblance.of_dict
    refine mapM (Q := fun w => (S.resemblance w).pair) ?_ ?_ inferInstance hps fun w' hw p p' hp => ?_
    · exact fun _ _ _ _ hw hp => ⟨S.value_mono hw hp.1, S.value_mono hw hp.2⟩
    · exact fun _ _ _ _ hw hp => ⟨S.value_mono hw hp.1, S.value_mono hw hp.2⟩
    · refine bind inferInstance (hf w' hw _ _ hp.2) fun w₁ hw₁ v v' hv => ?_
      exact pure ⟨S.value_mono hw₁ hp.1, hv⟩
  | closure self => cases self <;> exact fail _
  | _ => exact fail _

theorem filterOver {f : Value → Run Bool} {fs : Nat → Value → Run Bool} (hremembers : ∀ v, (f v).Remembers)
    (ha : S.value w a a')
    (hf : ∀ w', w ≤ w' → ∀ v v', S.value w' v v' → S.Simulates w' (fun _ => Eq) (f v) fun k => fs k v') :
    S.Simulates w S.value (Run.filterOver f a) fun k => Run.filterOver (fs k) a' := by
  cases (S.value_iff w a a').1 ha with
  | list hvs =>
    refine map (filterM @S.value_mono hremembers hvs hf) fun w' vs vs' => ?_
    exact Resemblance.of_list (S := S.resemblance w')
  | dict hps =>
    refine map (R := S.pairs) ?_ fun w' ps ps' => Resemblance.of_dict
    refine filterM (Q := fun w => (S.resemblance w).pair) ?_ inferInstance hps fun w' hw p p' hp => hf w' hw _ _ hp.2
    exact fun _ _ _ _ hw hp => ⟨S.value_mono hw hp.1, S.value_mono hw hp.2⟩
  | closure self => cases self <;> exact fail _
  | _ => exact fail _

theorem foldAll {f : Value → Value → Run Value} {fs : Nat → Value → Value → Run Value} {vs vs' : List Value}
    (hremembers : ∀ acc v, (f acc v).Remembers) (hvs : List.Forall₂ (S.value w) vs vs')
    (hf : ∀ w', w ≤ w' → ∀ v v' acc acc', S.value w' v v' → S.value w' acc acc' →
      S.Simulates w' S.value (f acc v) fun k => fs k acc' v') :
    S.Simulates w S.value (Run.foldAll f vs) fun k => Run.foldAll (fs k) vs' := by
  cases hvs with
  | nil => exact fail _
  | cons hv hvs => exact foldlM @S.value_mono hremembers hvs hv hf

theorem foldOver {f : Value → Value → Run Value} {fs : Nat → Value → Value → Run Value}
    (hremembers : ∀ acc v, (f acc v).Remembers) (ha : S.value w a a')
    (hf : ∀ w', w ≤ w' → ∀ v v' acc acc', S.value w' v v' → S.value w' acc acc' →
      S.Simulates w' S.value (f acc v) fun k => fs k acc' v') :
    S.Simulates w S.value (Run.foldOver f a) fun k => Run.foldOver (fs k) a' := by
  cases (S.value_iff w a a').1 ha with
  | list hvs => exact foldAll hremembers hvs hf
  | dict hps =>
    refine foldAll hremembers ?_ hf
    rw [List.forall₂_map_left_iff, List.forall₂_map_right_iff]
    exact hps.imp fun _ _ hp => hp.2
  | closure self => cases self <;> exact fail _
  | _ => exact fail _

end Operations

end Simulation

end Runs

end Treewalk
