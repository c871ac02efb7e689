import Treewalk.Proofs.Linked

/-!
# Call by need refines call by name

A run by need evaluates a thunk once and keeps its value in a memo cell, a run by name evaluates it at every lookup.

* By name, what a thunk yields depends on neither the stack nor the store (`byName_cases`, `eval_of_yields`). This is
  the simulation of call by name by itself.
* So a filled cell can be read instead of an evaluation (`simulates_force_byNeed`), and an evaluation can be repeated
  instead of reading the cell (`simulates_force_byName`).
* Hence each strategy follows the other (`byNeed_refines_byName`).
-/

namespace Treewalk

open Run Filter

/-! ## What thunks yield -/

section Steady

variable {limit : Option Nat} {n : Nat} {e : Expr} {r r' : Env} {v : Value} {s s' : CallStack} {σ σ' τ : Store}

/-- Evaluation by name without a limit follows evaluation by name under a limit, on any other stack, from any other
store and in any environment with the same erasure. -/
theorem byName_follows (limit : Option Nat) (n : Nat) (e : Expr) (s s' : CallStack)
    (hr : Env.erase r = Env.erase r') (hσ : σ.testedIdentity = false) (hτ : τ.testedIdentity = false) :
    (linked (.apart limit) .byName .byName).Follows (Set.univ, Set.univ) Value.Linked
      (eval ⟨limit, .byName⟩ n e r s σ) fun k => eval ⟨none, .byName⟩ k e r' s' τ := by
  have hI := interprets_linked (.apart limit) .byName .byName
    (fun n hI w _ _ e r r' s s' hr _ _ hs => hI.eval rfl hr hs) n
  have hlinked : Env.Linked (Set.univ, Set.univ) r r' := ⟨hr, fitIn_univ _, fitIn_univ _⟩
  exact hI.eval rfl hlinked trivial σ τ ⟨.of_byName hσ, .of_byName hτ⟩

/-- How an evaluation by name ends that does not test identities: with what the expression yields, by exhausting the
limit, or in a failure that shows that the expression yields nothing. -/
theorem byName_cases (h : ¬(eval ⟨limit, .byName⟩ n e r s σ).Tested) :
    (∃ v σ', eval ⟨limit, .byName⟩ n e r s σ = .done v σ' ∧ Yields e r v) ∨
      ∃ f σ', eval ⟨limit, .byName⟩ n e r s σ = .failed f σ' ∧
        ((∃ m, limit = some m ∧ f.Exhausts m) ∨ ∀ v, ¬Yields e r v) := by
  have hσ := ((remembers_interpreter ⟨limit, .byName⟩ n).eval e r s).untested h
  have hfollows := byName_follows limit n e s CallStack.empty (Env.erase_erase r).symm hσ
    (show ({} : Store).testedIdentity = false from rfl)
  generalize eval ⟨limit, .byName⟩ n e r s σ = outcome at h hfollows
  cases hfollows with
  | excused hexcused =>
    cases hexcused with
    | outOfFuel => exact absurd trivial h
    | tested _ htested => exact absurd htested h
    | pardoned hpardon => exact Or.inr ⟨_, _, rfl, Or.inl hpardon⟩
  | done _ hv hstore hevals =>
    exact Or.inl ⟨_, _, rfl, _, _, .of_eventually nofun hevals, hstore.2.untested, hv.1.symm⟩
  | @failed _ f f' _ τ _ _ _ _ hevals =>
    refine Or.inr ⟨_, _, rfl, Or.inr ?_⟩
    rintro v ⟨u, store, heval, _, _⟩
    have hfailed : Evaluates ⟨none, .byName⟩ e (Env.erase r) CallStack.empty {} (.failed f' τ) :=
      .of_eventually nofun hevals
    cases heval.unique hfailed

theorem yields_of_eval (h : eval ⟨limit, .byName⟩ n e r s σ = .done v σ') (huntested : σ'.testedIdentity = false) :
    Yields e r v := by
  have htested : ¬(eval ⟨limit, .byName⟩ n e r s σ).Tested := by
    rw [h]
    exact Outcome.not_tested_done.2 huntested
  rcases byName_cases htested with ⟨u, σ'', hu, hyields⟩ | ⟨f, σ'', hf, _⟩
  · rw [h] at hu
    cases hu
    exact hyields
  · rw [h] at hf
    cases hf

/-- What an expression yields, it evaluates to by name and without a limit. -/
theorem eval_of_yields (h : Yields e r v) (s : CallStack) (hτ : τ.testedIdentity = false) :
    ∃ v' τ', v'.erase = v.erase ∧ τ'.testedIdentity = false ∧
      ∀ᶠ k in atTop, eval ⟨none, .byName⟩ k e r s τ = .done v' τ' := by
  obtain ⟨u, store, ⟨_, n, hn⟩, huntested, hu⟩ := h
  have hfollows := byName_follows none n e CallStack.empty s (Env.erase_erase r)
    (show ({} : Store).testedIdentity = false from rfl) hτ
  rw [hn] at hfollows
  obtain ⟨_, v', τ', _, hv, hstore, hevals⟩ := hfollows.exists_done huntested
  exact ⟨v', τ', hv.1.symm.trans hu, hstore.2.untested, hevals⟩

end Steady

/-! ## Forcing a thunk -/

section Force

variable {limit : Option Nat} {F : Framing limit} {n : Nat} {e : Expr} {r r' : Env} {s s' : CallStack}
  {w : Cells × Cells} {cell cell' : Nat}

/-- Call by need follows call by name where a thunk is forced. -/
theorem simulates_force_byNeed
    (hI : (linked F .byName .byNeed).Interprets (interpreter ⟨limit, .byName⟩ n) (interpreter ⟨F.limit', .byNeed⟩))
    (hr : Env.Linked w r r') (hcell' : (cell', e, Env.erase r') ∈ w.2) (hs : F.stack s s') :
    (linked F .byName .byNeed).Simulates w Value.Linked (eval ⟨limit, .byName⟩ n e r s)
      fun k => (interpreter ⟨F.limit', .byNeed⟩ k).force .byNeed cell' e r' s' := by
  intro σ τ hstore
  cases hmemo : τ.memo? cell' with
  | some v =>
    obtain ⟨hfit, hyields⟩ := hstore.2.filled rfl _ hcell' v hmemo
    have hyields : Yields e r v := hyields.congr ((Env.erase_erase r').trans hr.1.symm) rfl
    simp only [force_of_some _ e r' s' hmemo]
    by_cases htested : (eval ⟨limit, .byName⟩ n e r s σ).Tested
    · exact .excused (.tested id htested)
    · rcases byName_cases htested with ⟨u, σ', hu, hyields'⟩ | ⟨f, σ', hf, hpardon | hnone⟩
      · rw [hu] at htested ⊢
        have hw : w ≤ (Set.univ, w.2) := ⟨Set.subset_univ _, le_rfl⟩
        have hlinked : u.Linked (Set.univ, w.2) v := ⟨hyields'.unique hyields, fitIn_univ _, hfit⟩
        have huntested := Outcome.not_tested_done.1 htested
        exact .done hw hlinked ⟨.of_byName huntested, hstore.2⟩ (Eventually.of_forall fun _ => rfl)
      · rw [hf]
        exact .excused (.pardoned hpardon)
      · exact absurd hyields (hnone v)
  | none =>
    have heval : (linked F .byName .byNeed).Simulates w (fun w' v v' => v.Linked w' v' ∧ Yields e r v)
        (eval ⟨limit, .byName⟩ n e r s) fun k => eval ⟨F.limit', .byNeed⟩ k e r' s' := by
      intro σ τ hstore
      refine (hI.eval rfl hr hs σ τ hstore).imp fun w' v v' σ' τ' hv _ hstore' hlinked => ?_
      exact ⟨hlinked, yields_of_eval hv hstore'.1.untested⟩
    have hall : (linked F .byName .byNeed).Simulates w Value.Linked (eval ⟨limit, .byName⟩ n e r s >>= pure)
        fun k => eval ⟨F.limit', .byNeed⟩ k e r' s' >>= memoize cell' := by
      refine Simulation.bind inferInstance heval fun w' hw v v' hv σ τ hstore => ?_
      obtain ⟨hlinked, hyields⟩ := hv
      have hyields' := hyields.congr (hr.1.trans (Env.erase_erase r').symm) hlinked.1
      obtain ⟨held, τ', hmemoize, hheld, hfit, hstore'⟩ := hstore.2.memoize (hw.2 hcell') hlinked.2.2 hyields'
      refine .done le_rfl ⟨hlinked.1.trans hheld.symm, hlinked.2.1, hfit⟩ ⟨hstore.1, hstore'⟩ ?_
      exact Eventually.of_forall fun _ => hmemoize
    simp only [force_of_none _ e r' s' hmemo]
    rw [bind_pure] at hall
    exact hall σ τ hstore

/-- Without a limit, call by name follows call by need where a thunk is forced. -/
theorem simulates_force_byName (hlimit : F.limit' = none)
    (hI : (linked F .byNeed .byName).Interprets (interpreter ⟨limit, .byNeed⟩ n) (interpreter ⟨F.limit', .byName⟩))
    (hr : Env.Linked w r r') (hcell : (cell, e, Env.erase r) ∈ w.1) (hs : F.stack s s') :
    (linked F .byNeed .byName).Simulates w Value.Linked ((interpreter ⟨limit, .byNeed⟩ n).force .byNeed cell e r s)
      fun k => eval ⟨F.limit', .byName⟩ k e r' s' := by
  intro σ τ hstore
  cases hmemo : σ.memo? cell with
  | some v =>
    obtain ⟨hfit, hyields⟩ := hstore.1.filled rfl _ hcell v hmemo
    have hyields : Yields e r' v := hyields.congr ((Env.erase_erase r).trans hr.1) rfl
    obtain ⟨v', τ', hv', huntested, hevals⟩ := eval_of_yields hyields s' hstore.2.untested
    have hw : w ≤ (w.1, Set.univ) := ⟨le_rfl, Set.subset_univ _⟩
    have hlinked : v.Linked (w.1, Set.univ) v' := ⟨hv'.symm, hfit, fitIn_univ _⟩
    rw [force_of_some _ e r s hmemo, hlimit]
    exact .done hw hlinked ⟨hstore.1, .of_byName huntested⟩ hevals
  | none =>
    have heval : (linked F .byNeed .byName).Simulates w (fun w' v v' => v.Linked w' v' ∧ Yields e r' v')
        (eval ⟨limit, .byNeed⟩ n e r s) fun k => eval ⟨F.limit', .byName⟩ k e r' s' := by
      intro σ τ hstore
      refine (hI.eval rfl hr hs σ τ hstore).imp fun w' v v' σ' τ' _ hv' hstore' hlinked => ?_
      obtain ⟨k, hk⟩ := hv'.exists
      exact ⟨hlinked, yields_of_eval hk hstore'.2.untested⟩
    have hall : (linked F .byNeed .byName).Simulates w Value.Linked (eval ⟨limit, .byNeed⟩ n e r s >>= memoize cell)
        fun k => eval ⟨F.limit', .byName⟩ k e r' s' >>= pure := by
      refine Simulation.bind inferInstance heval fun w' hw v v' hv σ τ hstore => ?_
      obtain ⟨hlinked, hyields'⟩ := hv
      have hyields := hyields'.congr (hr.1.symm.trans (Env.erase_erase r).symm) hlinked.1.symm
      obtain ⟨held, σ', hmemoize, hheld, hfit, hstore'⟩ := hstore.1.memoize (hw.1 hcell) hlinked.2.1 hyields
      rw [hmemoize]
      refine .done le_rfl ⟨hheld.trans hlinked.1, hfit, hlinked.2.2⟩ ⟨hstore', hstore.2⟩ ?_
      exact Eventually.of_forall fun _ => rfl
    rw [force_of_none _ e r s hmemo]
    simp only [bind_pure] at hall
    exact hall σ τ hstore

end Force

/-! ## The strategies agree -/

section Main

/-- Outcomes of evaluations that ended alike: with values of one structure, or with the same failure. -/
def Outcome.Agrees : Outcome Value → Outcome Value → Prop
  | .done v _, .done v' _ => v.erase = v'.erase ∧ v.typeName = v'.typeName ∧ v.display = v'.display
  | .failed f _, .failed f' _ => f = f'
  | _, _ => False

variable {limit : Option Nat} {strategy strategy' : Strategy} {n : Nat} {e : Expr} {env : Env} {stack : CallStack}
  {store : Store} {w : Cells × Cells}

/-- An evaluator that follows another one on the same stack ends like it, if it ends without a test of identity and
without exhausting its limit. -/
theorem agrees_of_interprets
    (hI : (linked (.same limit) strategy strategy').Interprets (interpreter ⟨limit, strategy⟩ n)
      (interpreter ⟨limit, strategy'⟩))
    (henv : Env.Linked w env env) (hstore : store.Keeps strategy w.1 ∧ store.Keeps strategy' w.2)
    (htested : ¬(eval ⟨limit, strategy⟩ n e env stack store).Tested)
    (hlimit : ∀ f store', eval ⟨limit, strategy⟩ n e env stack store = .failed f store' → ∀ m, ¬f.Exhausts m) :
    ∃ outcome, Evaluates ⟨limit, strategy'⟩ e env stack store outcome ∧
      (eval ⟨limit, strategy⟩ n e env stack store).Agrees outcome := by
  have hfollows := hI.eval (w := w) (e := e) rfl henv (s := stack) rfl store store hstore
  generalize hout : (interpreter ⟨limit, strategy⟩ n).eval e env stack store = outcome at hfollows
  replace hout : eval ⟨limit, strategy⟩ n e env stack store = outcome := hout
  rw [hout] at htested hlimit ⊢
  cases hfollows with
  | excused hexcused =>
    cases hexcused with
    | outOfFuel => exact absurd trivial htested
    | tested _ h => exact absurd h htested
    | pardoned hpardon =>
      obtain ⟨m, _, hm⟩ := hpardon
      exact absurd hm (hlimit _ _ rfl m)
  | @done _ v v' _ τ _ _ hv _ hevals =>
    refine ⟨.done v' τ, .of_eventually nofun hevals, hv.1, ?_, ?_⟩
    · exact Resemblance.typeName_eq (S := erased) hv.1
    · exact Resemblance.display_eq (S := erased) hv.1
  | @failed _ f f' _ τ _ _ hf _ hevals => exact ⟨.failed f' τ, .of_eventually nofun hevals, hf⟩

/-- The thunks that an environment reaches, with their environments erased. -/
def Env.cells (env : Env) : Cells :=
  { t | ∃ u ∈ Env.thunks env, (u.1, u.2.1, Env.erase u.2.2) = t }

theorem fitIn_cells (env : Env) : FitIn (Env.cells env) (Env.thunks env) :=
  fun t ht => ⟨t, ht, rfl⟩

/-- A store in which the cells of an environment are empty. -/
theorem keeps_of_empty (huntested : store.testedIdentity = false)
    (hempty : ∀ t ∈ Env.thunks env, store.cells[t.1]? = some none)
    (hsingle : ∀ t ∈ Env.thunks env, ∀ u ∈ Env.thunks env, t.1 = u.1 → t = u) :
    store.Keeps .byNeed (Env.cells env) where
  untested := huntested
  allocated := by
    rintro - _ ⟨t, ht, rfl⟩
    exact (Array.getElem?_eq_some_iff.1 (hempty t ht)).1
  single := by
    rintro - _ ⟨t, ht, rfl⟩ _ ⟨u, hu, rfl⟩ htu
    rw [hsingle t ht u hu htu]
  filled := by
    rintro - _ ⟨t, ht, rfl⟩ v hv
    simp [Store.memo?, hempty t ht] at hv

section Empty

variable (hempty : ∀ t ∈ Env.thunks env, store.cells[t.1]? = some none)
  (hsingle : ∀ t ∈ Env.thunks env, ∀ u ∈ Env.thunks env, t.1 = u.1 → t = u)
include hempty hsingle

/-- By need, an evaluation ends as it does by name. -/
theorem agrees_byNeed (htested : ¬(eval ⟨limit, .byName⟩ n e env stack store).Tested)
    (hlimit : ∀ f store', eval ⟨limit, .byName⟩ n e env stack store = .failed f store' → ∀ m, ¬f.Exhausts m) :
    ∃ outcome, Evaluates ⟨limit, .byNeed⟩ e env stack store outcome ∧
      (eval ⟨limit, .byName⟩ n e env stack store).Agrees outcome := by
  have huntested := ((remembers_interpreter ⟨limit, .byName⟩ n).eval e env stack).untested htested
  have hkeeps := keeps_of_empty huntested hempty hsingle
  have hI := interprets_linked (.same limit) .byName .byNeed
    (fun n hI w _ _ e r r' s s' hr _ hcell' hs => simulates_force_byNeed hI hr hcell' hs) n
  exact agrees_of_interprets (w := (Set.univ, Env.cells env)) hI ⟨rfl, fitIn_univ _, fitIn_cells env⟩
    ⟨.of_byName huntested, hkeeps⟩ htested hlimit

/-- What an expression evaluates to by name, it evaluates to by need. -/
theorem exists_byNeed {v : Value} {store' : Store} (h : eval ⟨limit, .byName⟩ n e env stack store = .done v store')
    (huntested : store'.testedIdentity = false) :
    ∃ k v' store'', eval ⟨limit, .byNeed⟩ k e env stack store = .done v' store'' ∧ v.erase = v'.erase := by
  have htested : ¬(eval ⟨limit, .byName⟩ n e env stack store).Tested := by
    rw [h]
    exact Outcome.not_tested_done.2 huntested
  have hlimit : ∀ f store', eval ⟨limit, .byName⟩ n e env stack store = .failed f store' → ∀ m, ¬f.Exhausts m := by
    rw [h]
    nofun
  obtain ⟨outcome, ⟨_, k, hk⟩, hagrees⟩ := agrees_byNeed hempty hsingle htested hlimit
  rw [h] at hagrees
  cases outcome with
  | done v' store'' => exact ⟨k, v', store'', hk, hagrees.1⟩
  | failed f store'' => cases hagrees
  | outOfFuel => cases hagrees

/-- By name and without a limit, an evaluation ends as it does by need. -/
theorem agrees_byName (htested : ¬(eval ⟨none, .byNeed⟩ n e env stack store).Tested) :
    ∃ outcome, Evaluates ⟨none, .byName⟩ e env stack store outcome ∧
      (eval ⟨none, .byNeed⟩ n e env stack store).Agrees outcome := by
  have huntested := ((remembers_interpreter ⟨none, .byNeed⟩ n).eval e env stack).untested htested
  have hkeeps := keeps_of_empty huntested hempty hsingle
  have hI := interprets_linked (.same none) .byNeed .byName
    (fun n hI w _ _ e r r' s s' hr hcell _ hs => simulates_force_byName rfl hI hr hcell hs) n
  refine agrees_of_interprets (w := (Env.cells env, Set.univ)) hI ⟨rfl, fitIn_cells env, fitIn_univ _⟩
    ⟨hkeeps, .of_byName huntested⟩ htested fun f store' hf m hm => ?_
  -- without a limit, none is exhausted
  have hfatal : f.cause.category = .fatal := by rw [hm]; rfl
  obtain ⟨m, hm, _⟩ := (keepsLimit_eval_apply n stack (by rintro _ ⟨⟩)).1 e env store f store' hf hfatal
  cases hm

end Empty

/-- **Call by need refines call by name**, and without a limit the other way round too, where the memo cells of the
environment are empty and its thunks share none. -/
theorem byNeed_refines_byName (limit : Option Nat) (e : Expr) (env : Env) (stack : CallStack) (store : Store)
    (hempty : ∀ t ∈ Env.thunks env, store.cells[t.1]? = some none)
    (hsingle : ∀ t ∈ Env.thunks env, ∀ u ∈ Env.thunks env, t.1 = u.1 → t = u) :
    (∀ outcome, Evaluates ⟨limit, .byName⟩ e env stack store outcome → ¬outcome.Tested →
      (∀ f store', outcome = .failed f store' → ∀ m, f.cause ≠ .recursionLimit m) →
      ∃ outcome', Evaluates ⟨limit, .byNeed⟩ e env stack store outcome' ∧ outcome.Agrees outcome') ∧
    (limit = none → ∀ outcome, Evaluates ⟨limit, .byNeed⟩ e env stack store outcome → ¬outcome.Tested →
      ∃ outcome', Evaluates ⟨limit, .byName⟩ e env stack store outcome' ∧ outcome.Agrees outcome') := by
  constructor
  · rintro outcome ⟨_, n, rfl⟩ htested hlimit
    exact agrees_byNeed hempty hsingle htested hlimit
  · rintro rfl outcome ⟨_, n, rfl⟩ htested
    exact agrees_byName hempty hsingle htested

/-- `x + x` in an environment that binds `x` to the thunk of `1 + 2`: the thunk is evaluated twice by name and once by
need, and the sum is the same. -/
theorem byNeed_refines_byName_sum :
    ∃ outcome, Evaluates ⟨none, .byNeed⟩ (.operator .add (.symbol "x") (.symbol "x"))
        [("x", .thunk 0 (.operator .add (.integer 1) (.integer 2)) [])] CallStack.empty { cells := #[none] } outcome ∧
      Outcome.Agrees (.done (.int 6) { cells := #[none] }) outcome := by
  refine (byNeed_refines_byName none _ _ _ _ ?_ ?_).1 _ ⟨nofun, 4, rfl⟩ nofun nofun
  · intro t ht
    obtain rfl := List.mem_singleton.1 ht
    rfl
  · intro t ht u hu _
    rw [List.mem_singleton.1 ht, List.mem_singleton.1 hu]

end Main

end Treewalk
