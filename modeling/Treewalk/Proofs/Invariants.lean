import Treewalk.Proofs.Growth
import Treewalk.Proofs.LockstepStep

/-!
# Invariants of evaluation

A `Discipline` asks something of every value, however deep it stands in another: that the free variables of functions
and thunks are bound, that the keys of a dictionary are of a certain kind, that a builtin has not got too many
arguments. A value obeys it in a store (`Value.ObeysIn`) if also the values in the memo cells of its thunks do, and so
on.

**Evaluation keeps every discipline** (`Discipline.kept`): from an environment that obeys it come only values, and
filled cells, that obey it. The evaluator that checks this at every evaluation and application on the way (`watched`)
never finds a violation, also where the run goes on forever.

A run that keeps a discipline is in lockstep with itself (`Discipline.lockstep`). The worlds are the sets of memo cells
whose values are known to obey.
-/

namespace Treewalk

open Run

/-! ## Disciplines -/

section Disciplines

/-- What is asked of every value that a run handles. -/
structure Discipline where
  /-- Whether the free variables of functions and thunks have to be bound. -/
  lexical : Prop
  /-- What is asked of the keys of a dictionary. -/
  keys : KeyRule
  /-- What is asked of a builtin that has got a number of arguments. -/
  awaits : Builtin → Nat → Prop
  awaits_of_lt : ∀ {f : Builtin} {n : Nat}, n < f.arity → awaits f n

variable (D : Discipline)

/-- The names are bound in the environment, if names have to be. -/
def Discipline.sees (names : List String) (r : Env) : Prop :=
  D.lexical → ∀ name ∈ names, (r.lookup? name).isSome

mutual

/-- A value that obeys the discipline, with thunks whose memo cells are among `cells`. -/
inductive Value.Obeys (D : Discipline) (cells : Set Nat) : Value → Prop
  | unit : Value.Obeys D cells .unit
  | int (n : Int64) : Value.Obeys D cells (.int n)
  | bool (b : Bool) : Value.Obeys D cells (.bool b)
  | str (s : String) : Value.Obeys D cells (.str s)
  | list {vs : List Value} : (∀ v ∈ vs, Value.Obeys D cells v) → Value.Obeys D cells (.list vs)
  | dict {ps : List (Value × Value)} : D.keys.holds (ps.map (·.1)) → (∀ p ∈ ps, Value.Obeys D cells p.1) →
      (∀ p ∈ ps, Value.Obeys D cells p.2) → Value.Obeys D cells (.dict ps)
  | closure {i : Nat} {self : Option String} {params : List String} {body : Expr} {r : Env} :
      D.sees (body.freeUnder self params) r →
      (∀ name b, List.lookup name r = some b → Binding.Obeys D cells name b) →
      Value.Obeys D cells (.closure i self params body r)
  | primitive {f : Builtin} {vs : List Value} : D.awaits f vs.length → (∀ v ∈ vs, Value.Obeys D cells v) →
      Value.Obeys D cells (.primitive f vs)

/-- What a name is bound to obeys the discipline. -/
inductive Binding.Obeys (D : Discipline) (cells : Set Nat) : String → Binding → Prop
  | value {name : String} {v : Value} : Value.Obeys D cells v → Binding.Obeys D cells name (.value v)
  | thunk {name : String} {cell : Nat} {e : Expr} {r : Env} : cell ∈ cells → D.sees (e.freeAs name) r →
      (∀ name b, List.lookup name r = some b → Binding.Obeys D cells name b) →
      Binding.Obeys D cells name (.thunk cell e r)

end

/-- Every binding obeys the discipline. -/
def Env.Obeys (cells : Set Nat) (r : Env) : Prop :=
  ∀ name b, List.lookup name r = some b → Binding.Obeys D cells name b

/-- The values in the filled cells among `cells` obey the discipline. -/
def Store.Upholds (cells : Set Nat) (store : Store) : Prop :=
  ∀ cell ∈ cells, ∀ v, store.memo? cell = some v → v.Obeys D cells

/-- A value obeys the discipline, and so does all that it reaches through memo cells. -/
def Value.ObeysIn (store : Store) (v : Value) : Prop :=
  ∃ cells, store.Upholds D cells ∧ v.Obeys D cells

/-- Every binding obeys the discipline, and so does all that it reaches through memo cells. -/
def Env.ObeysIn (store : Store) (r : Env) : Prop :=
  ∃ cells, store.Upholds D cells ∧ Env.Obeys D cells r

variable {D} {cells cells' : Set Nat}

mutual

theorem Value.Obeys.mono (hcells : cells ⊆ cells') : ∀ {v : Value}, v.Obeys D cells → v.Obeys D cells'
  | _, .unit => .unit
  | _, .int n => .int n
  | _, .bool b => .bool b
  | _, .str s => .str s
  | _, .list hvs => .list fun v hv => Value.Obeys.mono hcells (hvs v hv)
  | _, .dict hkeys hks hvs =>
    .dict hkeys (fun p hp => Value.Obeys.mono hcells (hks p hp)) fun p hp => Value.Obeys.mono hcells (hvs p hp)
  | _, .closure hsees hr => .closure hsees fun name b hb => Binding.Obeys.mono hcells (hr name b hb)
  | _, .primitive hawaits hvs => .primitive hawaits fun v hv => Value.Obeys.mono hcells (hvs v hv)

theorem Binding.Obeys.mono (hcells : cells ⊆ cells') : ∀ {name : String} {b : Binding},
    Binding.Obeys D cells name b → Binding.Obeys D cells' name b
  | _, _, .value hv => .value (Value.Obeys.mono hcells hv)
  | _, _, .thunk hcell hsees hr =>
    .thunk (hcells hcell) hsees fun name b hb => Binding.Obeys.mono hcells (hr name b hb)

end

theorem Env.Obeys.mono {r : Env} (hcells : cells ⊆ cells') (h : Env.Obeys D cells r) : Env.Obeys D cells' r :=
  fun name b hb => (h name b hb).mono hcells

/-! ### Names -/

variable {names : List String} {r : Env} {b : Binding}

theorem Discipline.sees_extend {name : String} (h : D.sees (stillFree [name] names) r) :
    D.sees names (r.extend name b) := by
  intro hlexical other hother
  rw [Env.lookup?_extend]
  split
  · rfl
  · next hne => exact h hlexical other (mem_stillFree_of_not hother hne)

theorem Env.Obeys.extend {name : String} (h : Env.Obeys D cells r) (hb : Binding.Obeys D cells name b) :
    Env.Obeys D cells (r.extend name b) := by
  intro other found hfound
  rw [Env.extend, List.lookup_cons] at hfound
  split at hfound
  · next heq =>
    cases hfound
    exact eq_of_beq heq ▸ hb
  · exact h other found hfound

/-- What is found obeys under a name that is not empty. -/
theorem Env.Obeys.lookup {name : String} (h : Env.Obeys D cells r) (hb : r.lookup? name = some b) :
    name ≠ "" ∧ Binding.Obeys D cells name b := by
  unfold Env.lookup? at hb
  split at hb
  · cases hb
  · next hname =>
    refine ⟨?_, h name b hb⟩
    rintro rfl
    exact hname rfl

/-! ### Cells -/

variable {store : Store}

/-- Where the builtins alone are bound, every discipline is obeyed: they have no arguments yet. -/
theorem Env.obeysIn_withBuiltins (D : Discipline) (store : Store) : Env.ObeysIn D store Env.withBuiltins := by
  refine ⟨∅, fun _ h => h.elim, ?_⟩
  have hbind : ∀ (builtins : List Builtin) (r : Env), Env.Obeys D ∅ r →
      Env.Obeys D ∅ (r.bindAll (builtins.map fun b => (b.name, .primitive b []))) := by
    intro builtins
    induction builtins with
    | nil => exact fun r hr => hr
    | cons b builtins ih =>
      exact fun r hr => ih _ (hr.extend (.value (.primitive (D.awaits_of_lt b.arity_pos) fun _ => nofun)))
  exact hbind Builtin.all [] fun _ _ => nofun

theorem Store.Upholds.newCell (h : store.Upholds D cells) :
    { store with cells := store.cells.push none }.Upholds D (insert store.cells.size cells) := by
  intro cell hcell v hv
  rw [Store.memo?_push] at hv
  rcases hcell with rfl | hcell
  · simp [Store.memo?] at hv
  · exact (h cell hcell v hv).mono (Set.subset_insert _ _)

theorem Store.Upholds.fill {cell : Nat} {v : Value} (h : store.Upholds D cells) (hv : v.Obeys D cells) :
    { store with cells := store.cells.set! cell (some v) }.Upholds D cells := by
  intro other hother held hheld
  rw [Store.memo?_set] at hheld
  split at hheld
  · cases hheld
    exact hv
  · exact h other hother held hheld

end Disciplines

/-! ## The lockstep of a run with itself -/

section Lockstep

/-- The values in the cells that were empty in the store `before` obey the discipline. -/
def Store.FillsSince (D : Discipline) (cells : Set Nat) (store before : Store) : Prop :=
  ∀ cell v, before.memo? cell = none → store.memo? cell = some v → v.Obeys D cells

variable {D : Discipline} {cells : Set Nat}

theorem Value.obeys_iff (v v' : Value) :
    v.Obeys D cells ∧ v = v' ↔ Value.InStep (fun v v' => v.Obeys D cells ∧ v = v')
      (fun names r r' => (D.sees names r ∧ Env.Obeys D cells r) ∧ r = r') D.keys D.awaits v v' := by
  constructor
  · rintro ⟨h, rfl⟩
    cases h with
    | unit => exact .unit
    | int n => exact .int n
    | bool b => exact .bool b
    | str s => exact .str s
    | list hvs => exact .list (List.forall₂_same.2 fun v hv => ⟨hvs v hv, rfl⟩)
    | dict hkeys hks hvs =>
      exact .dict (List.forall₂_same.2 fun p hp => ⟨⟨hks p hp, rfl⟩, ⟨hvs p hp, rfl⟩⟩) hkeys
    | closure hsees hr => exact .closure _ _ _ _ ⟨⟨hsees, hr⟩, rfl⟩
    | primitive hawaits hvs => exact .primitive _ (List.forall₂_same.2 fun v hv => ⟨hvs v hv, rfl⟩) hawaits
  · intro h
    cases h with
    | unit => exact ⟨.unit, rfl⟩
    | int n => exact ⟨.int n, rfl⟩
    | bool b => exact ⟨.bool b, rfl⟩
    | str s => exact ⟨.str s, rfl⟩
    | list hvs =>
      rw [List.forall₂_and_left, List.forall₂_eq_eq_eq] at hvs
      exact ⟨.list hvs.1, congrArg Value.list hvs.2⟩
    | @dict ps ps' hps hkeys =>
      have hps := hps.imp (S := fun p p' => (p.1.Obeys D cells ∧ p.2.Obeys D cells) ∧ p = p')
        fun _ _ h => ⟨⟨h.1.1, h.2.1⟩, Prod.ext h.1.2 h.2.2⟩
      rw [List.forall₂_and_left, List.forall₂_eq_eq_eq] at hps
      exact ⟨.dict hkeys (fun p hp => (hps.1 p hp).1) fun p hp => (hps.1 p hp).2, congrArg Value.dict hps.2⟩
    | closure i self params body h =>
      obtain ⟨⟨hsees, hr⟩, rfl⟩ := h
      exact ⟨.closure hsees hr, rfl⟩
    | primitive f hvs hawaits =>
      rw [List.forall₂_and_left, List.forall₂_eq_eq_eq] at hvs
      exact ⟨.primitive hawaits hvs.1, congrArg (Value.primitive f) hvs.2⟩

/-- What a run that keeps the discipline relates to itself. -/
def Discipline.lockstep (D : Discipline) (before : Store) : Lockstep (Set Nat) where
  value cells v v' := v.Obeys D cells ∧ v = v'
  env cells names r r' := (D.sees names r ∧ Env.Obeys D cells r) ∧ r = r'
  cell cells c := c ∈ cells
  store cells σ τ := (σ.Upholds D cells ∧ σ.FillsSince D cells before) ∧ σ = τ
  allows cause := D.lexical → cause.category ≠ .unboundVariable
  keys := D.keys
  awaits := D.awaits
  value_iff _ := Value.obeys_iff
  value_mono hcells h := ⟨h.1.mono hcells, h.2⟩
  env_mono hcells h := ⟨⟨h.1.1, h.1.2.mono hcells⟩, h.2⟩
  cell_mono hcells h := hcells h
  env_subset hsub h := ⟨⟨fun hlexical name hname => h.1.1 hlexical name (hsub hname), h.1.2⟩, h.2⟩
  env_bind := by
    rintro cells names r _ v _ name ⟨⟨hsees, hr⟩, rfl⟩ ⟨hv, rfl⟩
    exact ⟨⟨D.sees_extend hsees, hr.extend (.value hv)⟩, rfl⟩
  env_thunk := by
    rintro cells names r _ captured _ c e name ⟨⟨hsees, hr⟩, rfl⟩ hc ⟨⟨hfree, hcaptured⟩, rfl⟩
    exact ⟨⟨D.sees_extend hsees, hr.extend (.thunk hc hfree hcaptured)⟩, rfl⟩
  lookup := by
    rintro cells names r _ name ⟨⟨hsees, hr⟩, rfl⟩ hname
    cases hfound : r.lookup? name with
    | none =>
      refine ⟨.none, fun _ hlexical => ?_⟩
      have hsome := hsees hlexical name hname
      rw [hfound] at hsome
      cases hsome
    | some b =>
      refine ⟨.some ?_, nofun⟩
      obtain ⟨hempty, hb⟩ := hr.lookup hfound
      cases hb with
      | value hv => exact .value ⟨hv, rfl⟩
      | thunk hc hsees hr =>
        rw [Expr.freeAs_of_ne hempty] at hsees
        exact .thunk hc ⟨⟨hsees, hr⟩, rfl⟩
  allows_of h _ := h
  awaits_of_lt := D.awaits_of_lt
  fresh := by
    rintro cells σ _ ⟨h, rfl⟩
    exact ⟨rfl, h, rfl⟩
  note := by
    rintro cells σ _ tested ⟨h, rfl⟩
    exact ⟨h, rfl⟩
  alloc := by
    rintro cells σ _ ⟨⟨hupholds, hfills⟩, rfl⟩
    refine ⟨rfl, insert σ.cells.size cells, Set.subset_insert _ _, Set.mem_insert _ _, ⟨hupholds.newCell, ?_⟩, rfl⟩
    intro cell v hbefore hv
    rw [Store.memo?_push] at hv
    exact (hfills cell v hbefore hv).mono (Set.subset_insert _ _)
  memo := by
    rintro cells σ _ c ⟨⟨hupholds, _⟩, rfl⟩ hc
    have h := hupholds c hc
    generalize σ.memo? c = held at h
    cases held with
    | none => exact .none
    | some v => exact .some ⟨h v rfl, rfl⟩
  fill := by
    rintro cells σ _ c v _ ⟨⟨hupholds, hfills⟩, rfl⟩ hc ⟨hv, rfl⟩
    refine ⟨⟨hupholds.fill hv, ?_⟩, rfl⟩
    intro other held hbefore hheld
    rw [Store.memo?_set] at hheld
    split at hheld
    · cases hheld
      exact hv
    · exact hfills other held hbefore hheld

end Lockstep

/-! ## Runs under watch -/

section Watched

open Classical in
/-- Goes on if the store is as it should be, and fails with the alarm if not. -/
noncomputable def Run.check (alarm : Failure) (ok : Store → Prop) : Run Unit :=
  fun store => if ok store then .done () store else .failed alarm store

/-- An evaluator that checks what it is given, and what it gives, against the discipline. -/
noncomputable def Interpreter.watch (D : Discipline) (alarm : Failure) (I : Interpreter) : Interpreter where
  eval e env stack := do
    check alarm fun store => D.sees e.free env ∧ Env.ObeysIn D store env
    let v ← I.eval e env stack
    check alarm fun store => v.ObeysIn D store
    return v
  apply callee args stack := do
    check alarm fun store => ∀ v ∈ callee :: args, v.ObeysIn D store
    let v ← I.apply callee args stack
    check alarm fun store => v.ObeysIn D store
    return v

/-- The evaluator with the given fuel that raises the alarm as soon as it evaluates in an environment, applies a
function, takes an argument or gets a value that does not obey the discipline. -/
noncomputable def watched (D : Discipline) (alarm : Failure) (config : Config) : Nat → Interpreter
  | 0 => interpreter config 0
  | n + 1 => ((watched D alarm config n).next config).watch D alarm

/-- The alarm is raised where an environment does not obey, so the checks are not idle. -/
theorem watch_eval_of_not {D : Discipline} {env : Env} {store : Store} (alarm : Failure) (I : Interpreter) (e : Expr)
    (stack : CallStack) (h : ¬Env.ObeysIn D store env) :
    (I.watch D alarm).eval e env stack store = .failed alarm store := by
  have hcheck : check alarm (fun store => D.sees e.free env ∧ Env.ObeysIn D store env) store = .failed alarm store :=
    if_neg fun hok => h hok.2
  simp only [Interpreter.watch, bind_apply, hcheck]

variable {D : Discipline} {before : Store} {α : Type} {cells : Set Nat} {R : Set Nat → α → α → Prop} {m m' : Run α}

/-- A check that holds wherever the cells uphold the discipline changes nothing. -/
theorem keeps_check (alarm : Failure) {ok : Store → Prop} (hok : ∀ store, store.Upholds D cells → ok store)
    (h : (D.lockstep before).Keeps cells R m m') :
    (D.lockstep before).Keeps cells R m (check alarm ok >>= fun _ => m') := by
  rintro σ _ ⟨hstore, rfl⟩
  have hcheck : check alarm ok σ = .done () σ := if_pos (hok σ hstore.1)
  rw [bind_apply, hcheck]
  exact h σ σ ⟨hstore, rfl⟩

theorem keeps_checkValue (alarm : Failure) {m m' : Run Value}
    (h : (D.lockstep before).Keeps cells (D.lockstep before).value m m') :
    (D.lockstep before).Keeps cells (D.lockstep before).value m
      (m' >>= fun v => check alarm (fun store => v.ObeysIn D store) >>= fun _ => pure v) := by
  have hm : (D.lockstep before).Keeps cells (D.lockstep before).value (m >>= pure)
      (m' >>= fun v => check alarm (fun store => v.ObeysIn D store) >>= fun _ => pure v) := by
    refine Lockstep.bind h fun cells' _ v v' hv => keeps_check alarm (fun store hstore => ?_) (Lockstep.pure hv)
    exact ⟨cells', hstore, hv.2 ▸ hv.1⟩
  rw [bind_pure] at hm
  exact hm

theorem interprets_watch {I J : Interpreter} (alarm : Failure) (hI : (D.lockstep before).Interprets I J) :
    (D.lockstep before).Interprets I (J.watch D alarm) where
  eval := by
    rintro cells e r _ s ⟨⟨hsees, hr⟩, rfl⟩
    refine keeps_check alarm (fun store hstore => ⟨hsees, cells, hstore, hr⟩) (keeps_checkValue alarm ?_)
    exact hI.eval ⟨⟨hsees, hr⟩, rfl⟩
  apply := by
    intro cells f f' vs vs' s hf hvs
    refine keeps_check alarm (fun store hstore v hv => ⟨cells, hstore, ?_⟩) (keeps_checkValue alarm (hI.apply hf hvs))
    obtain ⟨hobeys, rfl⟩ : (∀ v ∈ vs, v.Obeys D cells) ∧ vs = vs' := by
      rw [← List.forall₂_eq_eq_eq, ← List.forall₂_and_left]
      exact hvs
    rcases List.mem_cons.1 hv with rfl | hv
    · exact hf.2 ▸ hf.1
    · exact hobeys v hv

theorem interprets_watched (D : Discipline) (alarm : Failure) (before : Store) (config : Config) (n : Nat) :
    (D.lockstep before).Interprets (interpreter config n) (watched D alarm config n) := by
  induction n with
  | zero => exact .zero config
  | succ n ih => exact interprets_watch alarm (ih.next config)

theorem eq_of_meets {outcome outcome' : Outcome Value}
    (h : (D.lockstep before).Meets cells (D.lockstep before).value outcome outcome') : outcome' = outcome := by
  cases h with
  | outOfFuel => rfl
  | done _ hv hafter => rw [hv.2, hafter.2]
  | failed _ _ hafter => rw [hafter.2]

end Watched

/-! ## What evaluation keeps -/

section Main

variable {D : Discipline} {e : Expr} {env : Env} {store : Store}

/-- **Evaluation keeps every discipline.** In an environment that obeys it, no check against it fails on the way, no
name is found unbound if names have to be bound, and the value and the values of newly filled cells obey it. -/
theorem Discipline.kept (D : Discipline) (config : Config) (stack : CallStack) (henv : Env.ObeysIn D store env)
    (hsees : D.sees e.free env) :
    (∀ alarm n, (watched D alarm config n).eval e env stack store = eval config n e env stack store) ∧
      (∀ failure after, Evaluates config e env stack store (.failed failure after) → D.lexical →
        failure.cause.category ≠ .unboundVariable) ∧
      (∀ v after, Evaluates config e env stack store (.done v after) → v.ObeysIn D after) ∧
      ∀ outcome after, Evaluates config e env stack store outcome → outcome.store? = some after →
        ∀ cell v, store.memo? cell = none → after.memo? cell = some v → v.ObeysIn D after := by
  obtain ⟨cells, hstore, hr⟩ := henv
  have hstore' : (D.lockstep store).store cells store store := by
    refine ⟨⟨hstore, fun cell v hnone hsome => ?_⟩, rfl⟩
    rw [hnone] at hsome
    cases hsome
  have hmeets : ∀ alarm n, (D.lockstep store).Meets cells (D.lockstep store).value
      (eval config n e env stack store) ((watched D alarm config n).eval e env stack store) :=
    fun alarm n => (interprets_watched D alarm store config n).eval ⟨⟨hsees, hr⟩, rfl⟩ store store hstore'
  -- the watched run is the run itself, so the run meets itself
  have hself : ∀ n outcome, eval config n e env stack store = outcome →
      (D.lockstep store).Meets cells (D.lockstep store).value outcome outcome := by
    rintro n _ rfl
    have h := hmeets ⟨.emptyFold, none⟩ n
    rw [eq_of_meets h] at h
    exact h
  refine ⟨fun alarm n => eq_of_meets (hmeets alarm n), ?_, ?_, ?_⟩
  · rintro failure after ⟨-, n, heval⟩
    cases hself n _ heval with
    | failed _ hcause _ => exact hcause
  · rintro v after ⟨-, n, heval⟩
    cases hself n _ heval with
    | done _ hv hafter => exact ⟨_, hafter.1.1, hv.1⟩
  · rintro outcome after ⟨-, n, heval⟩ hafter cell v hnone hsome
    cases hself n _ heval with
    | outOfFuel => cases hafter
    | done _ _ hstore =>
      cases hafter
      exact ⟨_, hstore.1.1, hstore.1.2 cell v hnone hsome⟩
    | failed _ _ hstore =>
      cases hafter
      exact ⟨_, hstore.1.1, hstore.1.2 cell v hnone hsome⟩

end Main

end Treewalk
