import Treewalk.Proofs.Desugaring
import Treewalk.Proofs.OperandOrder

/-!
# Dedicated forms

Some builtins have a form of expression of their own. It takes the operands and does with them what the builtin does
(`evalStep_of_call`), but there is no name to look up, and its frame shows another expression.

* **On stacks of one depth an expression ends alike** but for the backtrace (`alike_eval_apply`), with any fuel and
  under any limit. So a dedicated form ends as the application of its builtin does (`alike_of_call`): what has no room
  for the name has no room for the first operand.
* The combinators take their operands in the other order, which makes a difference only where an operand fails or a
  limit is exhausted (`endAlike_operands`). For this the store is coherent, as whatever a host has is
  (`Host.Reached.exists_coherent`).

Hence **dedicated forms agree with the builtins** (`dedicated_forms_agree`).
-/

namespace Treewalk

open Run

/-! ## Runs that end alike -/

section Alike

variable {α β : Type}

/-- Two runs end alike but for the backtrace, with the same store. -/
def Run.Alike (m m' : Run α) : Prop :=
  ∀ σ, (m σ).bare = (m' σ).bare

theorem Run.Alike.refl (m : Run α) : m.Alike m :=
  fun _ => rfl

theorem Run.alike_iff {m m' : Run α} : m.Alike m' ↔ m.LeadsTo m' ∧ m'.LeadsTo m := by
  constructor
  · exact fun h => ⟨fun σ => Or.inr (h σ), fun σ => Or.inr (h σ).symm⟩
  · rintro ⟨h, h'⟩ σ
    rcases h σ with hfuel | hbare
    · rcases h' σ with hfuel' | hbare
      · rw [hfuel, hfuel']
      · exact hbare.symm
    · exact hbare

theorem Run.Alike.bind {m m' : Run α} {f f' : α → Run β} (hm : m.Alike m') (hf : ∀ a, (f a).Alike (f' a)) :
    (m >>= f).Alike (m' >>= f') := by
  obtain ⟨hm, hm'⟩ := alike_iff.1 hm
  exact alike_iff.2 ⟨hm.bind fun a => (alike_iff.1 (hf a)).1, hm'.bind fun a => (alike_iff.1 (hf a)).2⟩

theorem compositional_alike (strategy : Strategy) :
    Compositional strategy fun m : Bool → Run _ => (m false).Alike (m true) where
  pure _ := .refl _
  bind := .bind
  fail _ _ := .refl _
  freshId := .refl _
  newCell := .refl _
  noteIdentityTest _ := .refl _
  memo? _ _ := .refl _
  memoize _ _ _ := .refl _

/-- Frames on stacks of one depth. -/
theorem Run.Alike.inFrame {limit : Option Nat} {e e' : Expr} {s s' : CallStack} {body body' : CallStack → Run α}
    (hdepth : s.depth = s'.depth) (h : (body (s.push e)).Alike (body' (s'.push e'))) :
    (inFrame limit e s body).Alike (inFrame limit e' s' body') := by
  intro σ
  rcases CallStack.pushWithin_alike limit hdepth with ⟨cause, hfull⟩ | hroom
  · simp only [Run.inFrame, (hfull e).1, (hfull e').2]
  · rw [bare_inFrame_of_ok (hroom e).1, bare_inFrame_of_ok (hroom e').2]
    exact h σ

/-- **On stacks of one depth an evaluation ends alike**, and so does an application. By induction on the fuel. -/
theorem alike_eval_apply (config : Config) (n : Nat) :
    (∀ e env {s s' : CallStack}, s.depth = s'.depth → (eval config n e env s).Alike (eval config n e env s')) ∧
      ∀ callee args {s s' : CallStack}, s.depth = s'.depth →
        (apply config n callee args s).Alike (apply config n callee args s') := by
  induction n with
  | zero => exact ⟨fun _ _ _ _ _ => .refl _, fun _ _ _ _ _ => .refl _⟩
  | succ n ih =>
    obtain ⟨heval, happly⟩ := ih
    have hP := compositional_alike config.strategy
    let I : Bool → Interpreter := fun _ => interpreter config n
    constructor
    · intro e env s s' hdepth
      have hinner : (s.push e).depth = (s'.push e).depth := congrArg (· + 1) hdepth
      refine .inFrame hdepth ?_
      refine hP.evalStep I (fun i => cond i (s'.push e) (s.push e)) (fun e env => heval e env hinner)
        (fun _ => config) (fun _ => rfl) (fun callee args => happly callee args hinner) (fun decl env => ?_) e env
      refine .inFrame hinner ?_
      exact hP.declare I (fun i => cond i ((s'.push e).push _) ((s.push e).push _))
        (fun e env => heval e env (congrArg (· + 1) hinner)) decl env
    · intro callee args s s' hdepth
      let stack : Bool → CallStack := fun i => cond i s' s
      refine hP.applyStep I stack callee args (fun e env => heval e env hdepth) fun builtin collected _ => ?_
      refine hP.callBuiltin I stack builtin _ fun op func coll _ => ?_
      exact hP.combine I stack op func fun before v _ => happly func (before ++ [v]) hdepth

end Alike

/-! ## Calls of builtins -/

section Calls

/-- The builtin that a form is for, and the operands in the order in which both take them. -/
def Expr.call? : Expr → Option (Builtin × List Expr)
  | .unary .head xs => some (.head, [xs])
  | .unary .tail xs => some (.tail, [xs])
  | .unary .not x => some (.not, [x])
  | .binary .cons x xs => some (.cons, [x, xs])
  | .binary .delete k d => some (.delete, [k, d])
  | .binary .hasKey k d => some (.hasKey, [k, d])
  | .binary .getKey k d => some (.getKey, [k, d])
  | .insert k v d => some (.insert, [k, v, d])
  | _ => none

variable {e : Expr} {b : Builtin} {es : List Expr} {env : Env} {s : CallStack}

theorem length_of_call (h : e.call? = some (b, es)) : es.length = b.arity := by
  unfold Expr.call? at h
  split at h <;> cases h <;> rfl

/-- **A form does with the values of its operands what its builtin does.** -/
theorem evalStep_of_call (h : e.call? = some (b, es)) (I : Interpreter) (config : Config) (s : CallStack) :
    I.evalStep config e env s = es.mapM (I.eval · env s) >>= fun args => I.callBuiltin b args s := by
  unfold Expr.call? at h
  split at h <;> cases h <;>
    simp only [Interpreter.evalStep, Interpreter.callBuiltin, List.mapM_cons, List.mapM_nil, bind_assoc, pure_bind]

/-- No function is applied for it. -/
theorem callBuiltin_of_call (h : e.call? = some (b, es)) (I J : Interpreter) (args : List Value) (s t : CallStack) :
    I.callBuiltin b args s = J.callBuiltin b args t := by
  unfold Expr.call? at h
  rcases args with _ | ⟨u, _ | ⟨v, _ | ⟨w, _ | ⟨x, args⟩⟩⟩⟩ <;> split at h <;> cases h <;> rfl

/-- A loop has a result for each item, so what comes next need agree on as many results only. -/
theorem mapM_bind_congr {α β γ : Type} {f : α → Run β} {as : List α} {g g' : List β → Run γ}
    (h : ∀ bs, bs.length = as.length → g bs = g' bs) : as.mapM f >>= g = as.mapM f >>= g' := by
  funext σ
  simp only [bind_apply]
  cases hm : as.mapM f σ with
  | done bs σ' => simp only [h bs (length_of_mapM hm)]
  | _ => rfl

/-- A builtin on as many arguments as it runs on. -/
theorem applyStep_of_full (I : Interpreter) {args : List Value} (h : args.length = b.arity) (s : CallStack) :
    I.applyStep (.primitive b []) args s = I.callBuiltin b args s := by
  simp [Interpreter.applyStep, h]

variable {config : Config} {t : CallStack}

/-- The operands of a form end as those of its builtin do after the name, on a stack of the same depth. -/
theorem alike_operands (h : e.call? = some (b, es)) (hname : env.lookup? b.name = some (.value (.primitive b [])))
    (hdepth : s.depth = t.depth) (I : Interpreter) (n : Nat) :
    (es.mapM (eval config n · env s) >>= fun args => I.callBuiltin b args s).Alike
      (eval config n (.symbol b.name) env t >>= fun callee =>
        es.mapM (eval config n · env t) >>= fun args => apply config n callee args t) := by
  have hlength := length_of_call h
  obtain ⟨x, xs, rfl⟩ : ∃ x xs, es = x :: xs := List.exists_cons_of_length_pos (hlength ▸ b.arity_pos)
  cases n with
  | zero =>
    rw [List.mapM_cons, bind_assoc]
    exact .refl _
  | succ n =>
    rcases CallStack.pushWithin_alike config.maxDepth hdepth with ⟨cause, hfull⟩ | hroom
    · -- what has no room for the name has none for the first operand
      have hoperand : eval config (n + 1) x env s = fail cause := eval_of_full (fun e => (hfull e).1) n x env
      have hsymbol : eval config (n + 1) (.symbol b.name) env t = fail cause :=
        eval_of_full (fun e => (hfull e).2) n _ env
      rw [List.mapM_cons, hoperand, hsymbol, bind_assoc]
      exact .refl _
    · have hcall : ∀ args, args.length = (x :: xs).length →
          apply config (n + 1) (.primitive b []) args t = I.callBuiltin b args s := by
        intro args hargs
        rw [apply_succ, applyStep_of_full _ (hargs.trans hlength), callBuiltin_of_call h _ I args t s]
      rw [eval_symbol_of_room hname (hroom _).2, pure_bind, mapM_bind_congr hcall]
      have hoperands : ((x :: xs).mapM (eval config (n + 1) · env s)).Alike
          ((x :: xs).mapM (eval config (n + 1) · env t)) :=
        (compositional_alike config.strategy).mapM (f := fun i e => eval config (n + 1) e env (cond i t s))
          fun e _ => (alike_eval_apply config (n + 1)).1 e env hdepth
      exact hoperands.bind fun _ => .refl _

/-- **A dedicated form ends as the application of its builtin does**, with any fuel and under any limit. -/
theorem alike_of_call (h : e.call? = some (b, es)) (hname : env.lookup? b.name = some (.value (.primitive b [])))
    (n : Nat) : (eval config n e env s).Alike (eval config n (.apply (.symbol b.name) es) env s) := by
  cases n with
  | zero => exact .refl _
  | succ n =>
    rw [eval_succ, eval_succ]
    refine .inFrame rfl ?_
    rw [evalStep_of_call h]
    have hdepth : (s.push e).depth = (s.push (.apply (.symbol b.name) es)).depth := rfl
    exact alike_operands h hname hdepth (interpreter config n) n

end Calls

/-! ## Agreement -/

section Main

/-- **Dedicated forms agree with the builtins of their names**, wherever the name has not been bound anew; combinators
do so where both operands have values, from a coherent store and without a limit. -/
theorem dedicated_forms_agree (config : Config) (env : Env) (s : CallStack) (σ : Store) :
    (∀ e b es, e.call? = some (b, es) → env.lookup? b.name = some (.value (.primitive b [])) →
      ∀ n, (eval config n e env s σ).bare = (eval config n (.apply (.symbol b.name) es) env s σ).bare) ∧
    (config.maxDepth = none → ∀ D, σ.Coherent D → (∀ m ∈ Env.marks env, m ∈ D) →
      ∀ op c f, env.lookup? op.builtin.name = some (.value (.primitive op.builtin [])) →
        (∃ coll σ', Evaluates config c env s σ (.done coll σ')) →
        (∃ func σ', Evaluates config f env s σ (.done func σ')) →
        EndAlike D (EndsIn config.strategy (.combine op c f) env s σ)
          (EndsIn config.strategy (.apply (.symbol op.builtin.name) [f, c]) env s σ)) := by
  constructor
  · exact fun e b es hcall hname n => alike_of_call hcall hname n σ
  · obtain ⟨limit, strategy⟩ := config
    rintro rfl D hσ henv op c f hname ⟨_, _, hc⟩ ⟨_, _, hf⟩
    exact endAlike_operands hσ henv hname hc hf

/-- Both operands look up one deferred expression, and under the limit there is no room for operands. -/
theorem dedicated_forms_agree_shared :
    let env : Env := Env.withBuiltins.extend "k" (.thunk 0 (.boolean true) [])
    let c : Expr := .list [.symbol "k"]
    let f : Expr := .branch (.symbol "k") (.lambda ["x"] (.symbol "x")) (.symbol "k")
    let host : Host := ⟨{ cells := #[none] }, insert env (insert Env.withBuiltins (insert [] ∅)), ∅⟩
    host.Reached ∧ env ∈ host.envs ∧
      (∀ n, (eval ⟨some 1, .byNeed⟩ n (.binary .cons (.symbol "k") c) env CallStack.empty host.store).bare =
        (eval ⟨some 1, .byNeed⟩ n (.apply (.symbol "cons") [.symbol "k", c]) env CallStack.empty host.store).bare) ∧
      ∃ D, (∀ m ∈ Env.marks env, m ∈ D) ∧
        EndAlike D (EndsIn .byNeed (.combine .map c f) env CallStack.empty host.store)
          (EndsIn .byNeed (.apply (.symbol "map") [f, c]) env CallStack.empty host.store) := by
  intro env c f host
  have hreached : host.Reached :=
    .tail (.tail (.tail .refl .new) .withBuiltins) (.defer "k" (.boolean true) (Set.mem_insert _ _)
      (Set.mem_insert_of_mem _ (Set.mem_insert _ _)))
  have henv : env ∈ host.envs := Set.mem_insert env _
  obtain ⟨D, hstore, hmarks, _⟩ := hreached.exists_coherent
  refine ⟨hreached, henv, ?_, D, hmarks env henv, ?_⟩
  · exact (dedicated_forms_agree ⟨some 1, .byNeed⟩ env CallStack.empty host.store).1 _ .cons _ rfl rfl
  · exact (dedicated_forms_agree ⟨none, .byNeed⟩ env CallStack.empty host.store).2 rfl D hstore (hmarks env henv)
      .map c f rfl ⟨_, _, nofun, 3, rfl⟩ ⟨_, _, nofun, 3, rfl⟩

end Main

end Treewalk
