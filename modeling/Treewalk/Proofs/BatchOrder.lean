import Treewalk.Proofs.Hosts
import Treewalk.Proofs.Settling
import Treewalk.Proofs.Termination

/-!
# The order of a batch

The members of a batch are evaluated one after another, and each leaves a store that is warmer than before
(`Settled.member`). What a member finds is what it finds alone (`AsAlone`), whatever has been evaluated before it
(`Settled.batch`). Hence **the order of a batch makes no difference** (`batch_order_irrelevant`).

Under a limit it makes one, by need: a memo cell that another member has filled saves frames
(`batch_order_shows_within_limit`). **It can only save frames** (`batch_order_saves_frames`): a member that does not
exhaust the limit alone has the result that it has alone, and another one exhausts the limit as well or has the result
that it has alone without a limit (`AsAloneWithin`).

It is enough that the store is coherent. Whatever a host has is (`Host.Reached.exists_coherent`).
-/

namespace Treewalk

open Run Filter
open List (Forall₂)

/-! ## Members -/

section Members

/-- The outcome of an evaluation that has this result and leaves this store. -/
def Result.leaving (store : Store) : Result → Outcome Value
  | .ok v => .done v store
  | .error failure => .failed failure store

/-- The result is that of evaluating the expression alone from the store, up to a one-to-one renaming that changes
nothing in the environment. -/
def AsAlone (config : Config) (env : Env) (store : Store) (e : Expr) (result : Result) : Prop :=
  ∃ alone after, Evaluates config e env CallStack.empty store (Result.leaving after alone) ∧
    ∃ ρ : Renaming, ρ.OneToOne ∧ (∀ m ∈ Env.marks env, ρ m m) ∧ alone.Renamed ρ result

variable {strategy : Strategy} {start D : Set Mark} {first σ : Store} {env : Env}

/-- **What one member does.** It has the result that it has alone, and leaves a store that is warmer. -/
theorem Settled.member (h : Settled strategy start first D σ) (henv : ∀ m ∈ Env.marks env, m ∈ start) {e : Expr}
    {outcome : Outcome Value} (halone : Evaluates ⟨none, strategy⟩ e env CallStack.empty first outcome) :
    ∃ D' result σ', Settled strategy start first D' σ' ∧ AsAlone ⟨none, strategy⟩ env first e result ∧
      Evaluates ⟨none, strategy⟩ e env CallStack.empty σ (Result.leaving σ' result) := by
  have henv' : ∀ m ∈ Env.marks env, m ∈ D := fun m hm => h.start_subset (henv m hm)
  cases outcome with
  | outOfFuel => exact absurd rfl halone.1
  | done v after =>
    obtain ⟨ρ, v', σ', heval, hmeets, hv⟩ := h.warms.done henv halone
    obtain ⟨D', h'⟩ := h.evaluates henv' heval rfl
    exact ⟨D', .ok v', σ', h', ⟨.ok v, after, halone, ρ, hmeets.oneToOne,
      fun m hm => hmeets.fixes m (henv m hm), .ok hv⟩, heval⟩
  | failed f after =>
    obtain ⟨σ', heval⟩ := h.warms.failed henv (fun _ => halone.not_fatal) halone
    obtain ⟨D', h'⟩ := h.evaluates henv' heval rfl
    exact ⟨D', .error f, σ', h', ⟨.error f, after, halone, Renaming.on D, h.coherent.oneToOne,
      fun m hm => ⟨rfl, henv' m hm⟩, .error f⟩, heval⟩

theorem attempt_of_leaving {m : Run Value} {result : Result} {σ σ' : Store} (h : m σ = result.leaving σ') :
    m.attempt σ = .done result σ' := by
  unfold Run.attempt
  cases result with
  | ok v => simp only [h, Result.leaving]
  | error f => simp only [h, Result.leaving]

/-- A batch is evaluated member by member. -/
theorem eventually_evalBatch_cons {config : Config} {e : Expr} {es : List Expr} {result : Result}
    {results : List Result} {σ σ' after : Store}
    (heval : Evaluates config e env CallStack.empty σ (Result.leaving σ' result))
    (hbatch : ∀ᶠ n in atTop, evalBatch config n env es σ' = .done results after) :
    ∀ᶠ n in atTop, evalBatch config n env (e :: es) σ = .done (result :: results) after := by
  filter_upwards [heval.eventually, hbatch] with n hn hbatch
  have hattempt : (eval config n e env CallStack.empty).attempt σ = .done result σ' := attempt_of_leaving hn
  unfold evalBatch at hbatch ⊢
  simp only [List.mapM_cons, bind_apply, hattempt, hbatch]
  rfl

/-- What is known of a member, whatever has been evaluated before it: it ends, leaves a store that is warmer, and has a
result that stands in a relation to the expression. -/
def Steady (config : Config) (env : Env) (start : Set Mark) (first : Store) (R : Expr → Result → Prop) (e : Expr) :
    Prop :=
  ∀ ⦃D : Set Mark⦄ ⦃σ : Store⦄, Settled config.strategy start first D σ →
    ∃ D' result σ', Settled config.strategy start first D' σ' ∧ R e result ∧
      Evaluates config e env CallStack.empty σ (Result.leaving σ' result)

variable {config : Config} {R : Expr → Result → Prop} {es : List Expr}

/-- **What a batch does.** By induction on its members: each has such a result, in its place. -/
theorem Settled.batch (hsteady : ∀ e ∈ es, Steady config env start first R e)
    (h : Settled config.strategy start first D σ) :
    ∃ results after, (∀ᶠ n in atTop, evalBatch config n env es σ = .done results after) ∧ Forall₂ R es results := by
  induction es generalizing D σ with
  | nil => exact ⟨[], σ, Eventually.of_forall fun _ => rfl, .nil⟩
  | cons e es ih =>
    obtain ⟨hfirst, hrest⟩ := List.forall_mem_cons.1 hsteady
    obtain ⟨D', result, σ', h', hresult, heval⟩ := hfirst h
    obtain ⟨results, after, hbatch, hresults⟩ := ih hrest h'
    exact ⟨result :: results, after, eventually_evalBatch_cons heval hbatch, .cons hresult hresults⟩

/-- Lists of results for a family of expressions, as families. -/
theorem exists_ofFn {α β : Type} {R : α → β → Prop} {k : Nat} {f : Fin k → α} {bs : List β}
    (h : Forall₂ R (List.ofFn f) bs) : ∃ g : Fin k → β, bs = List.ofFn g ∧ ∀ i, R (f i) (g i) := by
  have hlength : k = bs.length := by simpa using h.length_eq
  subst hlength
  refine ⟨bs.get, (List.ofFn_get bs).symm, fun i => ?_⟩
  have hi := h.get (by simp) i.2
  simpa using hi

/-- The same, in whatever order. -/
theorem Settled.batch_in_order (hsteady : ∀ e ∈ es, Steady config env start first R e)
    (h : Settled config.strategy start first D σ) (order : Equiv.Perm (Fin es.length)) :
    ∃ (results : Fin es.length → Result) (after : Store),
      (∀ᶠ n in atTop, evalBatch config n env (List.ofFn fun i => es.get (order i)) σ =
        .done (List.ofFn fun i => results (order i)) after) ∧
      ∀ i, R (es.get i) (results i) := by
  have hmembers : ∀ e ∈ List.ofFn fun i => es.get (order i), Steady config env start first R e := by
    intro e he
    obtain ⟨i, rfl⟩ := List.mem_ofFn.1 he
    exact hsteady _ (List.get_mem _ _)
  obtain ⟨results, after, hbatch, hresults⟩ := h.batch hmembers
  obtain ⟨inOrder, rfl, hinOrder⟩ := exists_ofFn hresults
  refine ⟨inOrder ∘ order.symm, after, ?_, fun i => ?_⟩
  · simpa using hbatch
  · simpa using hinOrder (order.symm i)

end Members

/-! ## Coherent hosts -/

section Hosts

theorem solo_coherence : Tracking.Solo coherence where
  marks_eq _ _ := rfl
  store_eq _ _ := rfl
  exact _ D := Renaming.on_exact D
  same h := h.2
  strict _ _ := id
  interprets config n := ⟨_, interprets_coherent config n⟩

/-- **Whatever a host comes to have is coherent.** -/
theorem Host.Reached.exists_coherent {host : Host} (h : host.Reached) :
    ∃ D, host.store.Coherent D ∧ (∀ env ∈ host.envs, ∀ m ∈ Env.marks env, m ∈ D) ∧
      ∀ v ∈ host.values, ∀ m ∈ v.marks, m ∈ D := by
  have hstart : ({} : Store).Coherent ∅ := ⟨fun _ => nofun, fun _ => nofun, fun {_ _} => nofun⟩
  obtain ⟨D, hD⟩ := h.exists_tracked solo_coherence ⟨none, .byNeed⟩ ⟨hstart, rfl⟩
  exact ⟨D, hD.store.1, fun env henv => Env.renamed_on_iff.1 (hD.envs env henv),
    fun v hv => Value.renamed_on_iff.1 (hD.values v hv)⟩

end Hosts

/-! ## Orders -/

section Orders

/-- **The order of a batch makes no difference**, if its members end alone. Each has the result that it has alone: the
same failure, with its backtrace, or a value that is equal up to a one-to-one renaming. -/
theorem batch_order_irrelevant (strategy : Strategy) {D : Set Mark} {store : Store} {env : Env}
    (hstore : store.Coherent D) (henv : ∀ m ∈ Env.marks env, m ∈ D) (es : List Expr)
    (halone : ∀ e ∈ es, ∃ outcome, Evaluates ⟨none, strategy⟩ e env CallStack.empty store outcome) :
    (∃ results after, (∀ᶠ n in atTop, evalBatch ⟨none, strategy⟩ n env es store = .done results after) ∧
      Forall₂ (AsAlone ⟨none, strategy⟩ env store) es results) ∧
    ∀ order : Equiv.Perm (Fin es.length), ∃ (results : Fin es.length → Result) (after : Store),
      (∀ᶠ n in atTop, evalBatch ⟨none, strategy⟩ n env (List.ofFn fun i => es.get (order i)) store =
        .done (List.ofFn fun i => results (order i)) after) ∧
      ∀ i, AsAlone ⟨none, strategy⟩ env store (es.get i) (results i) := by
  have hsettled := hstore.settled strategy
  have hsteady : ∀ e ∈ es, Steady ⟨none, strategy⟩ env D store (AsAlone ⟨none, strategy⟩ env store) e := by
    intro e he D' σ h
    obtain ⟨outcome, halone⟩ := halone e he
    exact h.member henv halone
  exact ⟨hsettled.batch hsteady, hsettled.batch_in_order hsteady⟩

/-- A function is deferred and shared by two members of a batch, between which a third one fails. -/
theorem batch_order_irrelevant_shared :
    let e : Expr := .lambda ["x"] (.symbol "x")
    let env : Env := [("f", .thunk 0 e [])]
    let es : List Expr := [.symbol "f", .symbol "g", .symbol "f"]
    let host : Host := ⟨{ cells := #[none] }, insert env (insert [] ∅), ∅⟩
    host.Reached ∧ env ∈ host.envs ∧
      ∀ order : Equiv.Perm (Fin es.length), ∃ (results : Fin es.length → Result) (after : Store),
        (∀ᶠ n in atTop, evalBatch ⟨none, .byNeed⟩ n env (List.ofFn fun i => es.get (order i)) host.store =
          .done (List.ofFn fun i => results (order i)) after) ∧
        ∀ i, AsAlone ⟨none, .byNeed⟩ env host.store (es.get i) (results i) := by
  intro e env es host
  have hreached : host.Reached :=
    .tail (.tail .refl .new) (.defer "f" e (Set.mem_insert [] ∅) (Set.mem_insert [] ∅))
  have henv : env ∈ host.envs := Set.mem_insert env _
  obtain ⟨D, hstore, hmarks, _⟩ := hreached.exists_coherent
  have hends : ∀ e ∈ es, eval ⟨none, .byNeed⟩ 2 e env CallStack.empty host.store ≠ .outOfFuel := by
    simp only [es, List.forall_mem_cons]
    exact ⟨nofun, nofun, nofun, fun _ => nofun⟩
  exact ⟨hreached, henv, (batch_order_irrelevant .byNeed hstore (hmarks env henv) es
    fun e he => ⟨_, hends e he, 2, rfl⟩).2⟩

end Orders

/-! ## Under a limit -/

section Limited

/-- A result that exhausts the limit `m`. -/
def Result.Exhausts (m : Nat) (result : Result) : Prop :=
  ∃ failure, result = .error failure ∧ failure.Exhausts m

/-- Evaluated alone from the store, the expression exhausts the limit `m`. -/
def ExhaustsAlone (strategy : Strategy) (m : Nat) (env : Env) (store : Store) (e : Expr) : Prop :=
  ∃ alone after, Evaluates ⟨some m, strategy⟩ e env CallStack.empty store (Result.leaving after alone) ∧
    alone.Exhausts m

/-- What an expression may find in a batch under the limit `m`: what it finds alone under that limit. By need, if alone
it exhausts the limit, it may also exhaust it elsewhere, or find what it finds alone without a limit. -/
def AsAloneWithin (strategy : Strategy) (m : Nat) (env : Env) (store : Store) (e : Expr) (result : Result) : Prop :=
  AsAlone ⟨some m, strategy⟩ env store e result ∨
    strategy = .byNeed ∧ ExhaustsAlone strategy m env store e ∧
      (result.Exhausts m ∨ AsAlone ⟨none, strategy⟩ env store e result)

theorem Result.leaving_inj {σ σ' : Store} {result result' : Result} (h : result.leaving σ = result'.leaving σ') :
    result = result' := by
  cases result <;> cases result' <;> cases h <;> rfl

/-- Under a limit every expression has a result. -/
theorem exists_result_within (strategy : Strategy) (m : Nat) (e : Expr) (env : Env) (store : Store) :
    ∃ result after, Evaluates ⟨some m, strategy⟩ e env CallStack.empty store (Result.leaving after result) := by
  obtain ⟨outcome, hends, heval⟩ := ends_eval m CallStack.empty (Nat.le_add_left m _) e env store
  cases outcome with
  | outOfFuel => exact absurd rfl hends
  | done v after => exact ⟨.ok v, after, .of_eventually nofun heval⟩
  | failed f after => exact ⟨.error f, after, .of_eventually nofun heval⟩

variable {strategy : Strategy} {start D : Set Mark} {first σ : Store} {env : Env}

theorem store?_leaving (store : Store) (result : Result) : (result.leaving store).store? = some store := by
  cases result <;> rfl

/-- **What one member does under a limit.** -/
theorem Settled.member_within (h : Settled strategy start first D σ) (henv : ∀ m ∈ Env.marks env, m ∈ start) (m : Nat)
    (e : Expr) :
    ∃ D' result σ', Settled strategy start first D' σ' ∧ AsAloneWithin strategy m env first e result ∧
      Evaluates ⟨some m, strategy⟩ e env CallStack.empty σ (Result.leaving σ' result) := by
  have henv' : ∀ m ∈ Env.marks env, m ∈ D := fun m hm => h.start_subset (henv m hm)
  obtain ⟨alone, after, halone⟩ := exists_result_within strategy m e env first
  obtain ⟨result, σ', heval⟩ := exists_result_within strategy m e env σ
  obtain ⟨D', h'⟩ := h.evaluates henv' heval (store?_leaving σ' result)
  refine ⟨D', result, σ', h', ?_, heval⟩
  cases alone with
  | ok v =>
    obtain ⟨ρ, v', τ, hwarm, hmeets, hv⟩ := h.warms.done henv halone
    obtain rfl : result = .ok v' := Result.leaving_inj (heval.unique hwarm)
    exact Or.inl ⟨.ok v, after, halone, ρ, hmeets.oneToOne, fun m hm => hmeets.fixes m (henv m hm), .ok hv⟩
  | error f =>
    by_cases hfatal : strategy = .byNeed → f.cause.category ≠ .fatal
    · obtain ⟨τ, hwarm⟩ := h.warms.failed henv hfatal halone
      obtain rfl : result = .error f := Result.leaving_inj (heval.unique hwarm)
      exact Or.inl ⟨.error f, after, halone, Renaming.on D, h.coherent.oneToOne, fun m hm => ⟨rfl, henv' m hm⟩,
        .error f⟩
    · obtain ⟨hneed, hfatal⟩ := Classical.not_imp.1 hfatal
      have hcause : f.Exhausts m := halone.eq_recursionLimit (Nat.zero_le m) (not_not.1 hfatal)
      refine Or.inr ⟨hneed, ⟨.error f, after, halone, f, rfl, hcause⟩, or_iff_not_imp_left.2 fun hresult => ?_⟩
      -- the limit is not exhausted from the warm store, so there might as well be none
      have hunlimited : Evaluates ⟨none, strategy⟩ e env CallStack.empty σ (result.leaving σ') := by
        refine heval.unlimited fun failure τ hfailed hexhausts => hresult ⟨failure, ?_, hexhausts⟩
        have hfailed : result.leaving σ' = Result.leaving τ (.error failure) := hfailed
        exact Result.leaving_inj hfailed
      obtain ⟨outcome, hends⟩ := h.warms.ends henv hunlimited
      obtain ⟨_, result', τ, _, hresult', hwarm⟩ := h.member henv hends
      rwa [Result.leaving_inj (hunlimited.unique hwarm)]

/-- **Under a limit, the order of a batch can only save frames**: a member has the result that it has alone, or by need
the one that it has alone without a limit. -/
theorem batch_order_saves_frames (strategy : Strategy) (m : Nat) {D : Set Mark} {store : Store} {env : Env}
    (hstore : store.Coherent D) (henv : ∀ m ∈ Env.marks env, m ∈ D) (es : List Expr)
    (order : Equiv.Perm (Fin es.length)) :
    ∃ (results : Fin es.length → Result) (after : Store),
      (∀ᶠ n in atTop, evalBatch ⟨some m, strategy⟩ n env (List.ofFn fun i => es.get (order i)) store =
        .done (List.ofFn fun i => results (order i)) after) ∧
      ∀ i, AsAloneWithin strategy m env store (es.get i) (results i) :=
  (hstore.settled strategy).batch_in_order (fun e _ _ _ h => h.member_within henv m e) order

/-- A deferred expression is shared by two members, of which the second one has no room for it. -/
theorem batch_order_saves_frames_shared :
    let env : Env := [("x", .thunk 0 (.integer 1) [])]
    let es : List Expr := [.symbol "x", .list [.symbol "x"]]
    let host : Host := ⟨{ cells := #[none] }, insert env (insert [] ∅), ∅⟩
    host.Reached ∧ env ∈ host.envs ∧
      ∀ order : Equiv.Perm (Fin es.length), ∃ (results : Fin es.length → Result) (after : Store),
        (∀ᶠ n in atTop, evalBatch ⟨some 2, .byNeed⟩ n env (List.ofFn fun i => es.get (order i)) host.store =
          .done (List.ofFn fun i => results (order i)) after) ∧
        ∀ i, AsAloneWithin .byNeed 2 env host.store (es.get i) (results i) := by
  intro env es host
  have hreached : host.Reached :=
    .tail (.tail .refl .new) (.defer "x" (.integer 1) (Set.mem_insert [] ∅) (Set.mem_insert [] ∅))
  have henv : env ∈ host.envs := Set.mem_insert env _
  obtain ⟨D, hstore, hmarks, _⟩ := hreached.exists_coherent
  exact ⟨hreached, henv, batch_order_saves_frames .byNeed 2 hstore (hmarks env henv) es⟩

/-- In the order given, the second member of that batch has a value. Alone it exhausts the limit. -/
theorem batch_order_shows_within_limit :
    let env : Env := [("x", .thunk 0 (.integer 1) [])]
    let host : Host := ⟨{ cells := #[none] }, insert env (insert [] ∅), ∅⟩
    host.Reached ∧ env ∈ host.envs ∧
      (∃ after, ∀ᶠ n in atTop,
        evalBatch ⟨some 2, .byNeed⟩ n env [.symbol "x", .list [.symbol "x"]] host.store =
          .done [.ok (.int 1), .ok (.list [.int 1])] after) ∧
      ExhaustsAlone .byNeed 2 env host.store (.list [.symbol "x"]) := by
  intro env host
  have hreached : host.Reached :=
    .tail (.tail .refl .new) (.defer "x" (.integer 1) (Set.mem_insert [] ∅) (Set.mem_insert [] ∅))
  let after : Store := { cells := #[some (.int 1)] }
  have hfirst : Evaluates ⟨some 2, .byNeed⟩ (.symbol "x") env CallStack.empty host.store
      (Result.leaving after (.ok (.int 1))) := ⟨nofun, 2, rfl⟩
  have hsecond : Evaluates ⟨some 2, .byNeed⟩ (.list [.symbol "x"]) env CallStack.empty after
      (Result.leaving after (.ok (.list [.int 1]))) := ⟨nofun, 2, rfl⟩
  have hnone : ∀ᶠ n in atTop, evalBatch ⟨some 2, .byNeed⟩ n env [] after = .done [] after :=
    Eventually.of_forall fun _ => rfl
  refine ⟨hreached, Set.mem_insert env _, ⟨after, ?_⟩, ?_⟩
  · exact eventually_evalBatch_cons hfirst (eventually_evalBatch_cons hsecond hnone)
  · exact ⟨.error _, host.store, ⟨nofun, 3, rfl⟩, _, rfl, rfl⟩

end Limited

end Treewalk
