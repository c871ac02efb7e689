import Treewalk.Proofs.Hosts
import Treewalk.Proofs.Vigilance

/-!
# The discipline of memo cells

Whatever a host has stays on the track of its calls, hence is ranked (`Host.Reached.exists_ranks`), so a vigilant
evaluator finds nothing to complain of in its calls (`perform_vigilant_eq`).

Hence **memo cells are disciplined** (`memo_cells_disciplined`): they are filled by need only, by the value of their own
thunk, and never change afterwards. A thunk is evaluated only where its cell is empty, and a value that is found is then
in the cell. So it is evaluated to a value at most once.

That is so where calls, and the members of a batch, run one after another. Members may also run at the same time, and
what they share is the memo cells, so each of them runs in the company of the others (`Company`). Then two members can
both find a cell empty and evaluate its thunk. What is left of the discipline (`Host.DisciplinedAmid`) is that a cell
keeps the first value, that all members get this one, and that no member forces a cell that it is forcing. What a member
does is company for the others in its turn (`exists_company_leave`).

All this follows from ranks alone (`Host.Ranked.disciplined`). What a host has after a call in company is ranked as
well, so that the calls that it makes then are disciplined again.
-/

namespace Treewalk

open Run Filter

/-! ## Calls in company -/

section Company

/-- The store that a call leaves, or the store before it if it does not end. -/
def Call.leave (I : Interpreter) (call : Call) (σ : Store) : Store :=
  match call.perform I σ with
  | .done _ after => after
  | .failed _ _ => σ
  | .outOfFuel => σ

theorem Call.leave_eq_or (I : Interpreter) (call : Call) (σ : Store) :
    call.leave I σ = σ ∨ ∃ results, call.perform I σ = .done results (call.leave I σ) := by
  unfold Call.leave
  cases call.perform I σ with
  | done results after => exact Or.inr ⟨results, rfl⟩
  | failed | outOfFuel => exact Or.inl rfl

theorem remembers_perform (I : Interpreter) [I.Remembers] (call : Call) : (call.perform I).Remembers := by
  cases call <;> unfold Call.perform <;> infer_instance

variable {call : Call} {check check' : (Store → Prop) → Run Unit} {w₀ w : Ranks} (company : Company w₀)
  {config : Config} {n : Nat} {σ after : Store}

/-- A call in company keeps ranks, with whatever checks. -/
theorem follows_perform_vigilant (hcheck : Lenient check) (hcheck' : Lenient check') (hw : w₀ ≤ w) (hσ : σ.Ranked w)
    (hcall : call.Tracked ((ranked company σ config 0 []).marks w)) :
    (ranked company σ config 0 []).simulation.Follows w (ranked company σ config 0 []).results
      (call.perform (vigilant check company.others config n []) σ)
      fun _ => call.perform (vigilant check' company.others config n []) σ := by
  have := @remembers_vigilant check company.others hcheck _ config n []
  exact simulates_perform (fun _ => id) (interprets_vigilant company hcheck hcheck' σ config n 0 []) hcall σ σ
    ⟨⟨hw, hσ.within⟩, rfl⟩

/-- Whatever is done about a check that fails, a call that keeps ranks has one outcome. -/
theorem perform_vigilant_eq (hcheck : Lenient check) (hcheck' : Lenient check') (hw : w₀ ≤ w) (hσ : σ.Ranked w)
    (hcall : call.Tracked ((ranked company σ config 0 []).marks w)) :
    call.perform (vigilant check company.others config n []) σ =
      call.perform (vigilant check' company.others config n []) σ := by
  -- each side follows the other one, as far as that one ends
  have hleft := follows_perform_vigilant company (n := n) hcheck hcheck' hw hσ hcall
  have hright := follows_perform_vigilant company (n := n) hcheck' hcheck hw hσ hcall
  generalize call.perform (vigilant check company.others config n []) σ = outcome at hleft hright ⊢
  generalize call.perform (vigilant check' company.others config n []) σ = outcome' at hleft hright ⊢
  cases outcome with
  | done results σ' =>
    obtain ⟨_, results', τ, _, hresults, ⟨_, rfl⟩, hdone⟩ := Tracking.exists_done hleft
    obtain ⟨_, hdone⟩ := hdone.exists
    rw [Tracking.results_eq (ranked_exact company σ config 0 [] _) hresults, hdone]
  | failed f σ' =>
    obtain ⟨_, τ, _, ⟨_, rfl⟩, hfailed⟩ := Tracking.exists_failed hleft id
    obtain ⟨_, hfailed⟩ := hfailed.exists
    exact hfailed.symm
  | outOfFuel =>
    cases outcome' with
    | outOfFuel => rfl
    | done results σ' =>
      obtain ⟨_, _, _, _, _, _, hdone⟩ := Tracking.exists_done hright
      cases hdone.exists.choose_spec
    | failed f σ' =>
      obtain ⟨_, _, _, _, hfailed⟩ := Tracking.exists_failed hright id
      cases hfailed.exists.choose_spec

/-- A call in company keeps what is in the cells, and the store and its results are ranked. -/
theorem perform_amid {results : List Result} (hw : w₀ ≤ w) (hσ : σ.Ranked w)
    (hcall : call.Tracked ((ranked company σ config 0 []).marks w))
    (hdone : call.perform (amid company.others config n) σ = .done results after) :
    (∀ {cell : Nat} {v : Value}, σ.memo? cell = some v → after.memo? cell = some v) ∧
      ∃ w', w ≤ w' ∧ after.Ranked w' ∧ ∀ v, .ok v ∈ results → ∀ m ∈ v.marks, m.Below w' 0 := by
  have hfollows := follows_perform_vigilant company (n := n) lenient_pure lenient_pure hw hσ hcall
  replace hdone : call.perform (vigilant (fun _ => pure ()) company.others config n []) σ = .done results after := hdone
  rw [hdone] at hfollows
  obtain ⟨w', results', _, hw', hresults, ⟨⟨_, hafter⟩, _⟩, _⟩ := Tracking.exists_done hfollows
  obtain rfl := Tracking.results_eq (ranked_exact company σ config 0 [] w') hresults
  refine ⟨hafter.kept, w', hw', hafter.toRanked, fun v hv m hm => ?_⟩
  cases List.forall₂_same.1 hresults (.ok v) hv with
  | ok hrenamed => exact (Value.renamed_self_iff.1 hrenamed m hm).2

/-- What a call does in company is itself something that others can bear. -/
theorem exists_company_leave (company : Company w) (hcall : call.Tracked ((ranked company {} config 0 []).marks w))
    (n : Nat) : ∃ member : Company w, member.others = call.leave (amid company.others config n) := by
  have hcall' : ∀ {w' : Ranks} (σ : Store), w ≤ w' → call.Tracked ((ranked company σ config 0 []).marks w') :=
    fun _ hw => hcall.mono ((ranked company {} config 0 []).mono hw)
  refine ⟨⟨call.leave (amid company.others config n), ?_, ?_, ?_⟩, rfl⟩
  · intro σ htested
    have hremembers := (remembers_perform (amid company.others config n) call).tested σ htested
    unfold Call.leave
    cases hout : call.perform (amid company.others config n) σ with
    | done results after =>
      rw [hout] at hremembers
      exact hremembers
    | failed | outOfFuel => exact htested
  · intro w' σ cell v hw hσ hv
    rcases call.leave_eq_or (amid company.others config n) σ with hleave | ⟨_, hdone⟩
    · rw [hleave]
      exact hv
    · exact (perform_amid company hw hσ (hcall' σ hw) hdone).1 hv
  · intro w' σ hw hσ
    rcases call.leave_eq_or (amid company.others config n) σ with hleave | ⟨_, hdone⟩
    · rw [hleave]
      exact ⟨w', le_rfl, hσ⟩
    · obtain ⟨-, w'', hw'', hafter, -⟩ := perform_amid company hw hσ (hcall' σ hw) hdone
      exact ⟨w'', hw'', hafter⟩

/-- The evaluator keeps ranks. -/
theorem interprets_ranked (w : Ranks) (before : Store) (config : Config) (n : Nat) (p : ℚ) (forcing : List Nat) :
    (ranked (.alone w) before config p forcing).Interprets (interpreter config n) fun _ => interpreter config n := by
  have h := interprets_vigilant (.alone w) lenient_pure lenient_pure before config n p forcing
  simp only [Company.alone, vigilant_pure] at h
  exact h

end Company

/-! ## Ranked hosts -/

/-- All that a host has is ranked. -/
structure Host.Ranked (w : Ranks) (host : Host) : Prop where
  store : host.store.Ranked w
  envs : ∀ env ∈ host.envs, ∀ m ∈ Env.marks env, m.Below w 0
  values : ∀ v ∈ host.values, ∀ m ∈ v.marks, m.Below w 0

section Ranked

variable {host host' : Host} {call : Call} {w : Ranks}

theorem Host.Ranked.tracked (h : host.Ranked w) {w₀ : Ranks} (company : Company w₀) (before : Store) (config : Config)
    (hcall : call.From host) : call.Tracked ((ranked company before config 0 []).marks w) := by
  cases call with
  | eval e env stack | batch es env => exact Env.renamed_self_iff.2 fun m hm => ⟨rfl, h.envs env hcall m hm⟩
  | apply callee args stack =>
    exact fun v hv => Value.renamed_self_iff.2 fun m hm => ⟨rfl, h.values v (hcall v hv) m hm⟩

theorem solo_ranked (w : Ranks) : Tracking.Solo fun config => ranked (.alone w) {} config 0 [] where
  marks_eq _ _ := rfl
  store_eq _ _ := rfl
  exact config := ranked_exact (.alone w) {} config 0 []
  same h := h.2
  strict _ _ := id
  interprets config n := ⟨_, interprets_ranked w {} config n 0 []⟩

/-- Whatever a host comes to have is ranked. -/
theorem Host.Reached.exists_ranks (h : host.Reached) : ∃ w, host.Ranked w := by
  have hempty : ∀ cell, ({} : Store).memo? cell = none := fun cell => by simp [Store.memo?]
  have hstart : Store.Ranked ⟨fun _ => none⟩ {} := by
    refine ⟨fun {cell q} hrank => ?_, fun {cell v} hv => ?_⟩
    · cases hrank
    · rw [hempty] at hv
      cases hv
  obtain ⟨w, hw⟩ := h.exists_tracked (solo_ranked _) ⟨none, .byNeed⟩ ⟨⟨le_rfl, hstart.within⟩, rfl⟩
  exact ⟨w, hw.store.1.2.toRanked, fun env henv m hm => (Env.renamed_self_iff.1 (hw.envs env henv) m hm).2,
    fun v hv m hm => (Value.renamed_self_iff.1 (hw.values v hv) m hm).2⟩

/-- A cell that is filled stays filled, whatever a host does. -/
theorem Host.memo?_of_steps (h : Relation.ReflTransGen Host.Step host host') {cell : Nat} {v : Value}
    (hv : host.store.memo? cell = some v) : host'.store.memo? cell = some v := by
  induction h with
  | refl => exact hv
  | tail _ hstep ih =>
    cases hstep with
    | defer => exact (Store.memo?_push _ cell).trans ih
    | @call call config n results after hcall hperform =>
      exact (grows_perform config n call _ _ (congrArg Outcome.store? hperform)).filled ih
    | _ => exact ih

variable {env captured : Env} {name : String} {cell : Nat} {e : Expr} {config : Config} {n : Nat} {stack : CallStack}
  {after : Store} {v : Value}

/-- The evaluation of a thunk that a host has leaves the thunk's own cell empty. -/
theorem Host.Ranked.memo?_of_eval (h : host.Ranked w) (henv : env ∈ host.envs)
    (hbinding : env.lookup? name = some (.thunk cell e captured)) (hempty : host.store.memo? cell = none)
    (hafter : (eval config n e captured stack host.store).store? = some after) :
    after.memo? cell = none ∧ cell < after.cells.size := by
  have hmarks := Env.marks_lookup hbinding
  obtain ⟨q, hrank, hq, hcaptured⟩ := h.envs env henv _ (hmarks List.mem_cons_self)
  -- the thunk is evaluated as if its cell were being forced, so the evaluation stays below that
  have hself : Env.Renamed ((ranked (.alone w) host.store config q [cell]).marks w) captured captured := by
    refine Env.renamed_self_iff.2 fun m hm => ⟨rfl, ?_⟩
    exact (h.envs env henv m (hmarks (List.mem_cons_of_mem _ hm))).lower (hcaptured m hm)
  have hfollows := (interprets_ranked w host.store config n q [cell]).eval (e := e) rfl hself (rfl : stack = stack)
    host.store host.store ⟨⟨le_rfl, h.store.within.enter hempty hrank hq⟩, rfl⟩
  replace hafter : ((interpreter config n).eval e captured stack host.store).store? = some after := hafter
  generalize (interpreter config n).eval e captured stack host.store = outcome at hfollows hafter
  cases outcome with
  | outOfFuel => cases hafter
  | done v σ =>
    cases hafter
    obtain ⟨_, _, _, hw', _, ⟨⟨_, hσ⟩, _⟩, _⟩ := Tracking.exists_done hfollows
    exact ⟨(hσ.forcing cell List.mem_cons_self).1 rfl, hσ.allocated (hw' hrank)⟩
  | failed f σ =>
    cases hafter
    obtain ⟨_, _, hw', ⟨⟨_, hσ⟩, _⟩, _⟩ := Tracking.exists_failed hfollows id
    exact ⟨(hσ.forcing cell List.mem_cons_self).1 rfl, hσ.allocated (hw' hrank)⟩

end Ranked

/-! ## Discipline -/

section Discipline

/-- The discipline of memo cells where others act on the store while the host's calls go on. -/
structure Host.DisciplinedAmid {w : Ranks} (company : Company w) (host : Host) : Prop where
  /-- By name it does not matter who else acts. -/
  byName : ∀ {config : Config} (n : Nat), config.strategy = .byName →
    amid company.others config n = interpreter config n
  /-- The alarm is never raised: no call forces a cell that it is forcing, and what a forcing gives is in the cell. -/
  vigilant : ∀ {call : Call}, call.From host → ∀ (alarm : Failure) (config : Config) (n : Nat),
    call.perform (vigilant (Run.check alarm) company.others config n []) host.store =
      call.perform (amid company.others config n) host.store
  /-- The value of a thunk is the one in its cell, whoever has computed it. -/
  forced : ∀ {env captured : Env} {name : String} {cell : Nat} {e : Expr}, env ∈ host.envs →
    env.lookup? name = some (.thunk cell e captured) → ∀ {config : Config} {n : Nat} {stack : CallStack} {v : Value}
      {after : Store}, config.strategy = .byNeed →
      (amid company.others config n).eval (.symbol name) env stack host.store = .done v after →
      after.memo? cell = some v
  /-- No call changes a cell that is filled. -/
  kept : ∀ {call : Call}, call.From host → ∀ {config : Config} {n : Nat} {results : List Result} {after : Store},
    call.perform (amid company.others config n) host.store = .done results after →
    ∀ {cell : Nat} {v : Value}, host.store.memo? cell = some v → after.memo? cell = some v
  /-- What the host has after a call is ranked in its turn. -/
  ranked : ∀ {call : Call}, call.From host → ∀ {config : Config} {n : Nat} {results : List Result} {after : Store},
    call.perform (amid company.others config n) host.store = .done results after →
    ∃ w', w ≤ w' ∧ { host with store := after, values := host.values ∪ { v | .ok v ∈ results } : Host }.Ranked w'
  /-- What a call does is something that the others can bear. -/
  member : ∀ {call : Call}, call.From host → ∀ (config : Config) (n : Nat),
    ∃ member : Company w, member.others = call.leave (amid company.others config n)

/-- The discipline of memo cells, of a host whose calls are made one after another. -/
structure Host.Disciplined (host : Host) : Prop where
  /-- By name, a call fills no cell. -/
  byName : ∀ {call : Call} {config : Config} {n : Nat} {before : Store} {results : List Result} {after : Store},
    config.strategy = .byName → call.perform (interpreter config n) before = .done results after →
    ∀ cell, after.memo? cell = before.memo? cell
  /-- A call changes no cell that is filled. -/
  kept : ∀ {call : Call} {config : Config} {n : Nat} {before : Store} {results : List Result} {after : Store},
    call.perform (interpreter config n) before = .done results after →
    ∀ {cell : Nat} {v : Value}, before.memo? cell = some v → after.memo? cell = some v
  /-- Nor does anything that the host does later. -/
  later : ∀ {later : Host}, Relation.ReflTransGen Host.Step host later →
    ∀ {cell : Nat} {v : Value}, host.store.memo? cell = some v → later.store.memo? cell = some v
  /-- A thunk whose cell is filled is not evaluated, and has the value in it, under whatever name and from whatever
  environment it is looked up. -/
  found : ∀ {store : Store} {cell : Nat} {v : Value}, store.memo? cell = some v →
    ∀ (I : Interpreter) {name : String} {env : Env} {e : Expr} {captured : Env} (stack : CallStack),
      env.lookup? name = some (.thunk cell e captured) →
      ∃ u, I.lookup .byNeed name env stack store = .done u store ∧ (u == v) = true
  /-- The evaluation of a thunk leaves its own cell empty, also where it fails. -/
  empty : ∀ {env captured : Env} {name : String} {cell : Nat} {e : Expr}, env ∈ host.envs →
    env.lookup? name = some (.thunk cell e captured) → host.store.memo? cell = none →
    ∀ {config : Config} {n : Nat} {stack : CallStack} {after : Store},
      (eval config n e captured stack host.store).store? = some after → after.memo? cell = none
  /-- The value that is computed where the cell is empty is the value of the thunk, and is in the cell from then on. -/
  forced : ∀ {env captured : Env} {name : String} {cell : Nat} {e : Expr}, env ∈ host.envs →
    env.lookup? name = some (.thunk cell e captured) → host.store.memo? cell = none →
    ∀ {config : Config} {n : Nat} {stack : CallStack} {v : Value} {between : Store},
      eval config n e captured stack host.store = .done v between →
      ∃ after, (interpreter config n).lookup .byNeed name env stack host.store = .done v after ∧
        after.memo? cell = some v ∧ ∀ other, other ≠ cell → after.memo? other = between.memo? other
  /-- A failure is passed on, and nothing is kept. -/
  failed : ∀ {env captured : Env} {name : String} {cell : Nat} {e : Expr}, env ∈ host.envs →
    env.lookup? name = some (.thunk cell e captured) → host.store.memo? cell = none →
    ∀ {config : Config} {n : Nat} {stack : CallStack} {f : Failure} {after : Store},
      eval config n e captured stack host.store = .failed f after →
      (interpreter config n).lookup .byNeed name env stack host.store = .failed f after ∧ after.memo? cell = none
  /-- The alarm is never raised in a call: no cell is forced while it is being forced, a cell is empty until the value
  of its thunk has been computed, and that value is then in it. -/
  vigilant : ∀ {call : Call}, call.From host → ∀ (alarm : Failure) (config : Config) (n : Nat),
    call.perform (vigilant (Run.check alarm) id config n []) host.store =
      call.perform (interpreter config n) host.store
  /-- What is left of this in company, as of members of a batch that run at the same time. -/
  together : ∃ w, host.Ranked w ∧ ∀ company : Company w, host.DisciplinedAmid company

variable {host : Host} {others : Store → Store} {env captured : Env} {name : String} {cell : Nat} {e : Expr}
  {config : Config} {n : Nat} {stack : CallStack} {before after : Store} {v : Value}

theorem eval_eq_of_perform_eq {I J : Interpreter}
    (h : (Call.eval e env stack).perform I before = (Call.eval e env stack).perform J before) :
    I.eval e env stack before = J.eval e env stack before := by
  simp only [Call.perform, bind_apply, Run.attempt] at h
  generalize I.eval e env stack before = outcome at h ⊢
  generalize J.eval e env stack before = outcome' at h ⊢
  cases outcome <;> cases outcome' <;> cases h <;> rfl

/-- A name that is bound to a thunk has the value in the thunk's cell, if no alarm is raised. -/
theorem memo?_of_symbol {alarm : Failure} (hneed : config.strategy = .byNeed)
    (hbinding : env.lookup? name = some (.thunk cell e captured))
    (h : (vigilant (Run.check alarm) others config n []).eval (.symbol name) env stack before = .done v after) :
    after.memo? cell = some v := by
  cases n with
  | zero => cases h
  | succ n =>
    have hlookup := of_inFrame_done h
    simp only [lookupWith, hbinding, hneed] at hlookup
    exact memo?_of_forceOnce hlookup

/-- The alarm is never raised in company. -/
theorem Host.Ranked.disciplinedAmid {w : Ranks} (h : host.Ranked w) (company : Company w) :
    host.DisciplinedAmid company := by
  have hvigilant : ∀ {call : Call}, call.From host → ∀ (alarm : Failure) (config : Config) (n : Nat),
      call.perform (vigilant (Run.check alarm) company.others config n []) host.store =
        call.perform (amid company.others config n) host.store :=
    fun hcall alarm config n => perform_vigilant_eq company (lenient_check alarm) lenient_pure le_rfl h.store
      (h.tracked company _ config hcall)
  refine ⟨fun n hname => vigilant_byName hname n [], hvigilant, ?_, ?_, ?_, ?_⟩
  · intro env captured name cell e henv hbinding config n stack v after hneed heval
    have hperform := @hvigilant (.eval (.symbol name) env stack) henv ⟨.stackUnderflow, none⟩ config n
    exact memo?_of_symbol hneed hbinding ((eval_eq_of_perform_eq hperform).trans heval)
  · intro call hcall config n results after hdone cell v hv
    exact (perform_amid company le_rfl h.store (h.tracked company _ config hcall) hdone).1 hv
  · intro call hcall config n results after hdone
    obtain ⟨-, w', hw, hafter, hresults⟩ :=
      perform_amid company le_rfl h.store (h.tracked company _ config hcall) hdone
    refine ⟨w', hw, hafter, fun env henv m hm => (h.envs env henv m hm).mono hw le_rfl, ?_⟩
    rintro v (hv | hv)
    · exact fun m hm => (h.values v hv m hm).mono hw le_rfl
    · exact hresults v hv
  · intro call hcall config n
    exact exists_company_leave company (h.tracked company _ config hcall) n

/-- All of this follows from ranks alone. -/
theorem Host.Ranked.disciplined {w : Ranks} (h : host.Ranked w) : host.Disciplined where
  byName hname hperform := (grows_perform _ _ _ _ _ (congrArg Outcome.store? hperform)).byName hname
  kept hperform := (grows_perform _ _ _ _ _ (congrArg Outcome.store? hperform)).filled
  later := Host.memo?_of_steps
  found := by
    intro store cell v hv I name env e captured stack hbinding
    refine ⟨v, ?_, BEq.rfl⟩
    simp only [Interpreter.lookup, hbinding, Interpreter.force, bind_apply, Run.memo?, hv]
    rfl
  empty henv hbinding hempty _ _ _ _ hafter := (h.memo?_of_eval henv hbinding hempty hafter).1
  forced := by
    intro env captured name cell e henv hbinding hempty config n stack v between heval
    obtain ⟨hbetween, hcell⟩ := h.memo?_of_eval henv hbinding hempty (congrArg Outcome.store? heval)
    refine ⟨{ between with cells := between.cells.set! cell (some v) }, ?_, ?_, ?_⟩
    · replace heval : (interpreter config n).eval e captured stack host.store = .done v between := heval
      simp only [Interpreter.lookup, hbinding, Interpreter.force, bind_apply, Run.memo?, hempty, heval, Run.memoize,
        hbetween]
    · rw [Store.memo?_set, if_pos ⟨rfl, hcell⟩]
    · intro other hother
      rw [Store.memo?_set, if_neg fun h => hother h.1.symm]
  failed := by
    intro env captured name cell e henv hbinding hempty config n stack f after heval
    refine ⟨?_, (h.memo?_of_eval henv hbinding hempty (congrArg Outcome.store? heval)).1⟩
    replace heval : (interpreter config n).eval e captured stack host.store = .failed f after := heval
    simp only [Interpreter.lookup, hbinding, Interpreter.force, bind_apply, Run.memo?, hempty, heval]
  vigilant hcall alarm config n := by
    have h := (h.disciplinedAmid (.alone w)).vigilant hcall alarm config n
    simp only [Company.alone, amid, vigilant_pure] at h
    exact h
  together := ⟨w, h, h.disciplinedAmid⟩

/-- Where another member fills the cell in the meantime, the thunk has been evaluated twice and both have its value. -/
example :
    let e : Expr := .lambda ["x"] (.symbol "x")
    let kept : Value := .closure 7 none ["x"] (.symbol "x") []
    let others (σ : Store) : Store :=
      if 0 < σ.nextId && (σ.memo? 0).isNone then { σ with cells := σ.cells.set! 0 (some kept) } else σ
    (amid others ⟨none, .byNeed⟩ 2).eval (.symbol "f") [("f", .thunk 0 e [])] CallStack.empty { cells := #[none] } =
      .done kept { cells := #[some kept], nextId := 1 } := by
  rfl

end Discipline

end Treewalk
