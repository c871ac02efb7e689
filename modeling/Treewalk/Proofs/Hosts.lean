import Treewalk.Proofs.Growth
import Treewalk.Proofs.Tracking

/-!
# Hosts

A host (`Host`) builds environments, defers expressions and calls the evaluator, one call after another and each under
settings of its own. The members of a batch run one after another, too; in any other order they are so many calls.

A tracking of one run by itself (`Tracking.Solo`) says something about that run, and goes on from call to call: whatever
a host has stays on the track (`Host.Tracked.step`), hence whatever it comes to have (`Host.Reached.exists_tracked`).
-/

namespace Treewalk

open Run Filter

/-! ## Calls -/

section Calls

/-- A call of the evaluator from outside. -/
inductive Call where
  | eval (e : Expr) (env : Env) (stack : CallStack)
  | apply (callee : Value) (args : List Value) (stack : CallStack)
  /-- Independent expressions in one environment, each on an empty stack. -/
  | batch (es : List Expr) (env : Env)

/-- The results of a call, one for each of its expressions. The members of a batch may run at the same time, and then
each is in the company of the others; here they run one after another. -/
def Call.perform (I : Interpreter) : Call → Run (List Result)
  | .eval e env stack => do return [← (I.eval e env stack).attempt]
  | .apply callee args stack => do return [← (I.apply callee args stack).attempt]
  | .batch es env => es.mapM fun e => (I.eval e env CallStack.empty).attempt

theorem perform_batch (config : Config) (n : Nat) (es : List Expr) (env : Env) :
    (Call.batch es env).perform (interpreter config n) = evalBatch config n env es := rfl

/-- What a call is given is equal to itself up to the renaming. -/
def Call.Tracked (w : Renaming) : Call → Prop
  | .eval _ env _ | .batch _ env => Env.Renamed w env env
  | .apply callee args _ => ∀ v ∈ callee :: args, v.Renamed w v

theorem Call.Tracked.mono {w w' : Renaming} {call : Call} (hw : w ≤ w') (h : call.Tracked w) : call.Tracked w' := by
  cases call with
  | eval e env stack | batch es env => exact Env.Renamed.mono hw h
  | apply callee args stack => exact fun v hv => (h v hv).mono hw

theorem grows_perform (config : Config) (n : Nat) (call : Call) :
    (call.perform (interpreter config n)).Grows config.strategy := by
  have hP := compositional_grows config.strategy
  obtain ⟨heval, happly⟩ := grows_eval_apply config n
  cases call with
  | eval e env stack => exact (heval e env stack).attempt.bind fun _ => hP.pure _
  | apply callee args stack => exact (happly callee args stack).attempt.bind fun _ => hP.pure _
  | batch es env => exact hP.mapM (f := fun _ => _) fun e _ => (heval e env CallStack.empty).attempt

variable {W : Type} [Preorder W] {T : Tracking W} {w : W} {I : Interpreter} {J : Nat → Interpreter} {call : Call}

/-- The results of two lists of expressions. -/
def Tracking.results (T : Tracking W) (w : W) : List Result → List Result → Prop :=
  List.Forall₂ (Result.Renamed (T.marks w))

theorem simulates_perform [I.Remembers] (hstrict : ∀ f, ¬T.pardons f) (hI : T.Interprets I J)
    (hcall : call.Tracked (T.marks w)) : T.Simulates w T.results (call.perform I) fun k => call.perform (J k) := by
  cases call with
  | eval e env stack =>
    have heval := hI.eval (e := e) rfl hcall (rfl : stack = stack)
    refine Simulation.bind inferInstance (Tracking.attempt hstrict heval) fun w' _ result result' h => ?_
    exact Simulation.pure (.cons h .nil)
  | apply callee args stack =>
    obtain ⟨hcallee, hargs⟩ := List.forall_mem_cons.1 hcall
    have happly := hI.apply hcallee (List.forall₂_same.2 hargs) (rfl : stack = stack)
    refine Simulation.bind inferInstance (Tracking.attempt hstrict happly) fun w' _ result result' h => ?_
    exact Simulation.pure (.cons h .nil)
  | batch es env =>
    refine Simulation.mapM (Q := fun _ => Eq) (fun _ _ _ _ _ h => h) ?_ inferInstance (List.forall₂_refl es) ?_
    · intro w w' result result' hw h
      cases h with
      | ok hv => exact .ok (hv.mono (T.mono hw))
      | error f => exact .error f
    · rintro w' hw e _ rfl
      exact Tracking.attempt hstrict (hI.eval rfl (hcall.mono (T.mono hw)) rfl)

theorem Result.Renamed.eq {w : Renaming} (hw : w.Exact) {result result' : Result} (h : result.Renamed w result') :
    result = result' := by
  cases h with
  | ok hv => rw [hv.eq hw]
  | error f => rfl

theorem Tracking.results_eq (hw : (T.marks w).Exact) {results results' : List Result}
    (h : T.results w results results') : results = results' := by
  rw [← List.forall₂_eq_eq_eq]
  exact h.imp fun _ _ h => h.eq hw

end Calls

/-! ## Hosts -/

section Hosts

/-- What a host has: the store, the environments that it has built and the values that it has got. -/
structure Host where
  store : Store
  envs : Set Env
  values : Set Value

/-- A call on what the host has. -/
def Call.From (host : Host) : Call → Prop
  | .eval _ env _ | .batch _ env => env ∈ host.envs
  | .apply callee args _ => ∀ v ∈ callee :: args, v ∈ host.values

/-- What a host can do: build an environment, put a value together from the functions and thunks that it has, defer an
expression, or make a call under any settings. -/
inductive Host.Step (host : Host) : Host → Prop
  | new : Step host { host with envs := insert [] host.envs }
  | withBuiltins : Step host { host with envs := insert Env.withBuiltins host.envs }
  | bind {env : Env} {v : Value} (name : String) : env ∈ host.envs → v ∈ host.values →
      Step host { host with envs := insert (env.bind name v) host.envs }
  /-- A copy of a binding, under any name. -/
  | copy {env source : Env} {binding : Binding} (name other : String) : env ∈ host.envs → source ∈ host.envs →
      source.lookup? other = some binding → Step host { host with envs := insert (env.extend name binding) host.envs }
  /-- A new thunk. -/
  | defer {env captured : Env} (name : String) (e : Expr) : env ∈ host.envs → captured ∈ host.envs →
      Step host { host with
        store := { host.store with cells := host.store.cells.push none }
        envs := insert (env.extend name (.thunk host.store.cells.size e captured)) host.envs }
  | make {v : Value} :
      (∀ m ∈ v.marks, (∃ env ∈ host.envs, m ∈ Env.marks env) ∨ ∃ u ∈ host.values, m ∈ u.marks) →
      Step host { host with values := insert v host.values }
  | call {call : Call} {config : Config} {n : Nat} {results : List Result} {after : Store} : call.From host →
      call.perform (interpreter config n) host.store = .done results after →
      Step host { host with store := after, values := host.values ∪ { v | .ok v ∈ results } }

/-- Nothing has been built or called yet. -/
def Host.start : Host := ⟨{}, ∅, ∅⟩

/-- A host can come to have this. -/
def Host.Reached (host : Host) : Prop :=
  Relation.ReflTransGen Host.Step .start host

/-- Trackings of one run by itself, under any settings: marks stand for themselves only. -/
structure Tracking.Solo {W : Type} [Preorder W] (T : Config → Tracking W) : Prop where
  marks_eq : ∀ config config', (T config).marks = (T config').marks
  store_eq : ∀ config config', (T config).store = (T config').store
  exact : ∀ config w, ((T config).marks w).Exact
  same : ∀ {config : Config} {w : W} {σ τ : Store}, (T config).store w σ τ → σ = τ
  strict : ∀ config f, ¬(T config).pardons f
  interprets : ∀ config n, ∃ J, (T config).Interprets (interpreter config n) J

/-- All that a host has is on the track. -/
structure Host.Tracked {W : Type} [Preorder W] (T : Tracking W) (w : W) (host : Host) : Prop where
  store : T.store w host.store host.store
  envs : ∀ env ∈ host.envs, Env.Renamed (T.marks w) env env
  values : ∀ v ∈ host.values, v.Renamed (T.marks w) v

variable {host host' : Host} {call : Call}

section Tracked

variable {W : Type} [Preorder W] {T : Config → Tracking W} {config : Config} {w w' : W}

theorem Host.Tracked.of_config (hT : Tracking.Solo T) (h : host.Tracked (T config) w) (config' : Config) :
    host.Tracked (T config') w where
  store := by
    rw [hT.store_eq config' config]
    exact h.store
  envs := by
    rw [hT.marks_eq config' config]
    exact h.envs
  values := by
    rw [hT.marks_eq config' config]
    exact h.values

theorem Host.Tracked.tracked_call (h : host.Tracked (T config) w) (hcall : call.From host) :
    call.Tracked ((T config).marks w) := by
  cases call with
  | eval e env stack | batch es env => exact h.envs env hcall
  | apply callee args stack => exact fun v hv => h.values v (hcall v hv)

/-- One more environment. -/
theorem Host.Tracked.addEnv (h : host.Tracked (T config) w) {env : Env}
    (henv : Env.Renamed ((T config).marks w) env env) :
    { host with envs := insert env host.envs : Host }.Tracked (T config) w where
  store := h.store
  envs := by
    rintro other (rfl | hother)
    · exact henv
    · exact h.envs other hother
  values := h.values

/-- The store grows, and there may be more values. -/
theorem Host.Tracked.later (h : host.Tracked (T config) w) (hw : w ≤ w') {after : Store} {more : Set Value}
    (hstore : (T config).store w' after after) (hmore : ∀ v ∈ more, v.Renamed ((T config).marks w') v) :
    { host with store := after, values := host.values ∪ more : Host }.Tracked (T config) w' where
  store := hstore
  envs env henv := (h.envs env henv).mono ((T config).mono hw)
  values := by
    rintro v (hv | hv)
    · exact (h.values v hv).mono ((T config).mono hw)
    · exact hmore v hv

theorem Env.marks_withBuiltins : Env.marks Env.withBuiltins = [] := by
  rfl

theorem Env.marks_lookup {env : Env} {name : String} {binding : Binding} (h : env.lookup? name = some binding) :
    binding.marks ⊆ Env.marks env := by
  unfold Env.lookup? at h
  split at h
  · cases h
  · induction env with
    | nil => cases h
    | cons p env ih =>
      rw [List.lookup_cons] at h
      split at h
      · cases h
        exact List.subset_append_left _ _
      · exact List.subset_append_of_subset_right _ (ih h)

/-- **What one host step keeps.** -/
theorem Host.Tracked.step (hT : Tracking.Solo T) (h : host.Tracked (T config) w) (hstep : host.Step host') :
    ∃ w', host'.Tracked (T config) w' := by
  cases hstep with
  | new => exact ⟨w, h.addEnv Env.renamed_nil⟩
  | withBuiltins =>
    refine ⟨w, h.addEnv (Env.renamed_self_iff.2 ?_)⟩
    rw [Env.marks_withBuiltins]
    exact fun _ => nofun
  | bind name henv hv => exact ⟨w, h.addEnv ((h.envs _ henv).extend name (.value (h.values _ hv)))⟩
  | copy name other henv hsource hbinding =>
    have hrel := (h.envs _ hsource).lookup other
    rw [hbinding] at hrel
    cases hrel with
    | some hb => exact ⟨w, h.addEnv ((h.envs _ henv).extend name hb)⟩
  | @defer env captured name e henv hcaptured =>
    obtain ⟨w', hw, hthunk, hstore⟩ := (T config).alloc e h.store (h.envs _ hcaptured)
    have hlater := h.later hw hstore fun v (hv : v ∈ (∅ : Set Value)) => hv.elim
    rw [Set.union_empty] at hlater
    exact ⟨w', hlater.addEnv ((hlater.envs _ henv).extend name (.thunk hthunk (hlater.envs _ hcaptured)))⟩
  | make hmarks =>
    refine ⟨w, h.store, h.envs, ?_⟩
    rintro u (rfl | hu)
    · refine Value.renamed_self_iff.2 fun m hm => ?_
      rcases hmarks m hm with ⟨env, henv, hm⟩ | ⟨u, hu, hm⟩
      · exact Env.renamed_self_iff.1 (h.envs env henv) m hm
      · exact Value.renamed_self_iff.1 (h.values u hu) m hm
    · exact h.values u hu
  | @call call config' n results after hcall hperform =>
    have h' := h.of_config hT config'
    obtain ⟨J, hJ⟩ := hT.interprets config' n
    have hfollows := simulates_perform (hT.strict config') hJ (h'.tracked_call hcall) host.store host.store h'.store
    rw [hperform] at hfollows
    obtain ⟨w', results', τ, hw, hresults, hstore, _⟩ := Tracking.exists_done hfollows
    obtain rfl := hT.same hstore
    obtain rfl := Tracking.results_eq (hT.exact config' w') hresults
    refine ⟨w', (h'.later hw hstore fun v hv => ?_).of_config hT config⟩
    cases List.forall₂_same.1 hresults (.ok v) hv with
    | ok hrenamed => exact hrenamed

/-- Whatever a host comes to have is on the track. -/
theorem Host.Reached.exists_tracked (h : host.Reached) (hT : Tracking.Solo T) (config : Config)
    (hstart : (T config).store w {} {}) :
    ∃ w', host.Tracked (T config) w' := by
  induction h with
  | refl => exact ⟨w, hstart, fun _ h => h.elim, fun _ h => h.elim⟩
  | tail _ hstep ih =>
    obtain ⟨w', h'⟩ := ih
    exact h'.step hT hstep

end Tracked

end Hosts

end Treewalk
