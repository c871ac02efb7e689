import Treewalk.Proofs.Invariants
import Treewalk.Proofs.Ledgers

/-!
# Evaluation keeps a ledger

All that an evaluation handles on the way is entered in one ledger, which goes on from that of the store it starts in.

* **The step lemmas** (`Accounts.evalStep`, `Accounts.applyStep`): an evaluation or an application goes on with a ledger
  if its parts do.
* An evaluator under audit (`audited`) checks every environment, function, argument and value against a ledger. It never
  finds anything wrong (`audits_audited`), also where the run goes on forever.
-/

namespace Treewalk

open Run

/-! ## Steps -/

section Steps

/-- An evaluator keeps the ledger of what it is given, and a family of evaluators audits it. -/
structure Audits (I : Interpreter) (J : Ledger → Interpreter) : Prop where
  eval : ∀ {L : Ledger} {e : Expr} {r : Env} {s : CallStack}, Env.EnteredIn L r →
    Accounts L Value.EnteredIn (I.eval e r s) fun K => (J K).eval e r s
  apply : ∀ {L : Ledger} {f : Value} {vs : List Value} {s : CallStack}, f.EnteredIn L →
    (∀ v ∈ vs, v.EnteredIn L) → Accounts L Value.EnteredIn (I.apply f vs s) fun K => (J K).apply f vs s

namespace Accounts

variable {I : Interpreter} {J : Ledger → Interpreter} {L : Ledger} {s : CallStack} {r : Env} (hI : Audits I J)
include hI

theorem test {f v : Value} (hf : f.EnteredIn L) (hv : v.EnteredIn L) :
    Accounts L (fun _ _ => True) (I.test f v s) fun K => (J K).test f v s := by
  refine bind (hI.apply hf (List.forall_mem_singleton.2 hv)) fun L' _ u _ => ?_
  cases u with
  | bool b => exact pure trivial
  | unit | int | str | list | dict | closure | primitive => exact fail _

theorem combine (op : Combinator) {f coll : Value} (hf : f.EnteredIn L) (hcoll : coll.EnteredIn L) :
    Accounts L Value.EnteredIn (I.combine op f coll s) fun K => (J K).combine op f coll s := by
  unfold Interpreter.combine
  split
  · cases op with
    | map => exact mapOver hcoll fun L' hL v hv => hI.apply (hf.mono hL) (List.forall_mem_singleton.2 hv)
    | filter => exact filterOver hcoll fun L' hL v hv => test hI (hf.mono hL) hv
    | fold =>
      refine foldOver hcoll fun L' hL acc v hacc hv => hI.apply (hf.mono hL) ?_
      exact List.forall_mem_cons.2 ⟨hacc, List.forall_mem_singleton.2 hv⟩
  · exact fail _

theorem callBuiltin (builtin : Builtin) {vs : List Value} (hvs : ∀ v ∈ vs, v.EnteredIn L) :
    Accounts L Value.EnteredIn (I.callBuiltin builtin vs s) fun K => (J K).callBuiltin builtin vs s := by
  by_cases hlen : vs.length = builtin.arity
  · cases builtin with
    | head | tail | not =>
      obtain ⟨a, rfl⟩ := List.length_eq_one_iff.1 hlen
      exact unary _ (List.forall_mem_singleton.1 hvs)
    | length =>
      obtain ⟨a, rfl⟩ := List.length_eq_one_iff.1 hlen
      exact length (List.forall_mem_singleton.1 hvs)
    | cons | delete | hasKey | getKey =>
      obtain ⟨a, b, rfl⟩ := List.length_eq_two.1 hlen
      exact binary _ (hvs a (by simp)) (hvs b (by simp))
    | insert =>
      obtain ⟨key, a, b, rfl⟩ := List.length_eq_three.1 hlen
      exact insert (hvs key (by simp)) (hvs a (by simp)) (hvs b (by simp))
    | map | fold | filter =>
      obtain ⟨f, coll, rfl⟩ := List.length_eq_two.1 hlen
      simp only [Interpreter.callBuiltin]
      exact combine hI _ (hvs f (by simp)) (hvs coll (by simp))
  · simp only [Interpreter.callBuiltin_of_length_ne _ _ hlen]
    exact fail _

omit hI in
theorem env_bodyEnv {f : Value} {self : Option String} {bindings : List (String × Value)} (hr : Env.EnteredIn L r)
    (hf : f.EnteredIn L) (hvs : ∀ p ∈ bindings, p.2.EnteredIn L) :
    Env.EnteredIn L (Interpreter.bodyEnv f self r bindings) := by
  cases self with
  | none => exact hr.bindAll hvs
  | some name => exact (hr.extend name (.value hf)).bindAll hvs

/-- **Application, step by step.** -/
theorem applyStep {f : Value} {vs : List Value} (hf : f.EnteredIn L) (hvs : ∀ v ∈ vs, v.EnteredIn L) :
    Accounts L Value.EnteredIn (I.applyStep f vs s) fun K => (J K).applyStep f vs s := by
  cases hf with
  | @closure i self params body r hi hr =>
    have henv : Env.EnteredIn L (Interpreter.bodyEnv _ self r (params.zip vs)) :=
      env_bodyEnv hr (.closure hi hr) fun p hp => hvs p.2 (List.of_mem_zip hp).2
    simp only [Interpreter.applyStep]
    split
    · exact fail _
    · split
      · exact newFunction henv
      · exact hI.eval henv
  | @primitive builtin collected hcollected =>
    have hargs : ∀ v ∈ collected ++ vs, v.EnteredIn L := List.forall_mem_append.2 ⟨hcollected, hvs⟩
    simp only [Interpreter.applyStep]
    split
    · exact fail _
    · split
      · exact pure (.primitive hargs)
      · exact callBuiltin hI builtin hargs
  | _ => exact fail _

theorem force (strategy : Strategy) (cell : Nat) (e : Expr) (hr : Env.EnteredIn L r) :
    Accounts L Value.EnteredIn (I.force strategy cell e r s) fun K => (J K).force strategy cell e r s := by
  cases strategy with
  | byName => exact hI.eval hr
  | byNeed =>
    refine bind (memo? cell) fun L₁ hL₁ held hheld => ?_
    cases held with
    | some v => exact pure (hheld v rfl)
    | none => exact bind (hI.eval (hr.mono hL₁)) fun L₂ _ v hv => memoize cell hv

theorem lookup (strategy : Strategy) (name : String) (hr : Env.EnteredIn L r) :
    Accounts L Value.EnteredIn (I.lookup strategy name r s) fun K => (J K).lookup strategy name r s := by
  unfold Interpreter.lookup
  cases hfound : r.lookup? name with
  | none => exact fail _
  | some b =>
    cases hr.lookup hfound with
    | value hv => exact pure hv
    | thunk hcaptured => exact force hI strategy _ _ hcaptured

/-- The values of some expressions in one environment. -/
theorem evalAll {α : Type} (g : α → Expr) (as : List α) (hr : Env.EnteredIn L r) :
    Accounts L (fun L' vs => ∀ v ∈ vs, v.EnteredIn L') (as.mapM fun a => I.eval (g a) r s)
      fun K => as.mapM fun a => (J K).eval (g a) r s :=
  mapM (P := fun L' _ => Env.EnteredIn L' r) (fun _ _ _ hL hr => hr.mono hL) Value.EnteredIn.lasts (fun _ _ => hr)
    fun _ _ _ hr => hI.eval hr

theorem declare (decl : Decl) (hr : Env.EnteredIn L r) :
    Accounts L Env.EnteredIn (I.declare decl r s) fun K => (J K).declare decl r s := by
  cases decl with
  | eager bindings =>
    refine bind (evalAll hI (·.2) bindings hr) fun L' hL vs hvs => pure ?_
    exact (hr.mono hL).bindAll fun p hp => hvs p.2 (List.of_mem_zip hp).2
  | lazy bindings =>
    refine foldlM (P := fun L' _ => Env.EnteredIn L' r) (fun _ _ _ hL hr => hr.mono hL) (fun _ _ => hr) hr ?_
    exact fun L' _ extended p hext hr => newThunk p.1 p.2 hext hr
  | recursive name value =>
    cases value with
    | lambda params body =>
      have hbind : Accounts L Env.EnteredIn
          ((do return .closure (← freshId) (some name) params body r) >>= fun f => Pure.pure (r.bind name f))
          fun _ => (do return .closure (← freshId) (some name) params body r) >>= fun f => Pure.pure (r.bind name f) :=
        bind (newFunction hr) fun L' hL f hf => pure ((hr.mono hL).extend name (.value hf))
      exact hbind
    | _ => exact fail _
  | lazyRecursive name value =>
    cases value with
    | lambda params body => exact newThunk name _ hr hr
    | _ => exact fail _

theorem sequence (limit : Option Nat) (items : List Expr) (hr : Env.EnteredIn L r) :
    Accounts L Value.EnteredIn (I.sequence limit items r s) fun K => (J K).sequence limit items r s := by
  cases items with
  | nil => exact fail _
  | cons e es =>
    refine bind (P := fun L' p => Env.EnteredIn L' p.1 ∧ p.2.EnteredIn L') ?_ fun L' _ p hp => pure hp.2
    refine foldlM (P := fun _ _ => True) (fun _ _ _ _ h => h) (fun _ _ => trivial) ⟨hr, .unit⟩ ?_
    rintro L' hL ⟨env, _⟩ item ⟨henv, _⟩ -
    cases item with
    | declare decl => exact bind (inFrame (declare hI decl henv)) fun _ _ extended hext => pure ⟨hext, .unit⟩
    | _ => exact bind (hI.eval henv) fun _ hL' v hv => pure ⟨henv.mono hL', hv⟩

/-- **Evaluation, step by step.** -/
theorem evalStep (config : Config) (e : Expr) (hr : Env.EnteredIn L r) :
    Accounts L Value.EnteredIn (I.evalStep config e r s) fun K => (J K).evalStep config e r s := by
  cases e with
  | unit => exact pure .unit
  | integer n => exact pure (.int n)
  | boolean b => exact pure (.bool b)
  | string t => exact pure (.str t)
  | list items => exact bind (evalAll hI id items hr) fun L' _ vs hvs => pure (.list hvs)
  | dict pairs =>
    refine bind (P := fun L' ps => ∀ p ∈ ps, Ledger.HasPair L' p) ?_ fun L' _ ps hps => pure (.ofPairs hps)
    refine foldlM (P := fun L' _ => Env.EnteredIn L' r) (fun _ _ _ hL hr => hr.mono hL) (fun _ _ => hr)
      (fun _ => nofun) fun L₁ _ ps pair hps hr => ?_
    refine bind (hI.eval hr) fun L₂ hL₂ key hkey => ?_
    refine bind (hI.eval (hr.mono hL₂)) fun L₃ hL₃ v hv => ?_
    exact addPair (fun p hp => Ledger.HasPair.lasts (hL₂.trans hL₃) (hps p hp)) (hkey.mono hL₃) hv
  | symbol name => exact lookup hI config.strategy name hr
  | unary op e => exact bind (hI.eval hr) fun L' _ v hv => unary op hv
  | binary op l r₂ =>
    refine bind (hI.eval hr) fun L₁ hL₁ a ha => ?_
    exact bind (hI.eval (hr.mono hL₁)) fun L₂ hL₂ b hb => binary op (ha.mono hL₂) hb
  | insert k v d =>
    refine bind (hI.eval hr) fun L₁ hL₁ key hkey => ?_
    refine bind (hI.eval (hr.mono hL₁)) fun L₂ hL₂ v hv => ?_
    refine bind (hI.eval (hr.mono (hL₁.trans hL₂))) fun L₃ hL₃ dict hdict => ?_
    exact insert (hkey.mono (hL₂.trans hL₃)) (hv.mono hL₃) hdict
  | combine op c f =>
    refine bind (hI.eval hr) fun L₁ hL₁ coll hcoll => ?_
    exact bind (hI.eval (hr.mono hL₁)) fun L₂ hL₂ func hfunc => combine hI op hfunc (hcoll.mono hL₂)
  | branch c y n =>
    refine bind (hI.eval hr) fun L' hL v _ => ?_
    cases v with
    | bool b =>
      cases b with
      | true => exact hI.eval (hr.mono hL)
      | false => exact hI.eval (hr.mono hL)
    | unit | int | str | list | dict | closure | primitive => exact fail _
  | letIn decl body => exact bind (declare hI decl hr) fun L' _ extended hext => hI.eval hext
  | declare decl => exact bind (declare hI decl hr) fun L' _ _ _ => pure .unit
  | lambda params body => exact newFunction hr
  | apply f es =>
    refine bind (hI.eval hr) fun L₁ hL₁ f hf => ?_
    exact bind (evalAll hI id es (hr.mono hL₁)) fun L₂ hL₂ vs hvs => hI.apply (hf.mono hL₂) hvs
  | sequence items => exact sequence hI config.maxDepth items hr
  | pipe f e =>
    refine bind (hI.eval hr) fun L₁ hL₁ f hf => ?_
    refine bind (hI.eval (hr.mono hL₁)) fun L₂ hL₂ v hv => ?_
    exact hI.apply (hf.mono hL₂) (List.forall_mem_singleton.2 hv)

end Accounts

end Steps

/-! ## Audits -/

section Evaluators

/-- An evaluator that checks what it is given, and what it gives, against a ledger. -/
noncomputable def Interpreter.audit (K : Ledger) (alarm : Failure) (I : Interpreter) : Interpreter where
  eval e env stack := do
    check alarm fun _ => Env.EnteredIn K env
    let v ← I.eval e env stack
    check alarm fun _ => v.EnteredIn K
    return v
  apply callee args stack := do
    check alarm fun _ => ∀ v ∈ callee :: args, v.EnteredIn K
    let v ← I.apply callee args stack
    check alarm fun _ => v.EnteredIn K
    return v

/-- The evaluator with the given fuel that raises the alarm as soon as it evaluates in an environment, applies a
function, takes an argument or gets a value that is not entered in the ledger. -/
noncomputable def audited (K : Ledger) (alarm : Failure) (config : Config) : Nat → Interpreter
  | 0 => interpreter config 0
  | n + 1 => ((audited K alarm config n).next config).audit K alarm

/-- The alarm is raised where a function is not entered, so the checks are not idle. -/
theorem audit_apply_of_not {K : Ledger} {f : Value} (h : ¬f.EnteredIn K) (alarm : Failure) (I : Interpreter)
    (args : List Value) (stack : CallStack) (σ : Store) :
    (I.audit K alarm).apply f args stack σ = .failed alarm σ := by
  have hcheck : check alarm (fun _ => ∀ v ∈ f :: args, v.EnteredIn K) σ = .failed alarm σ :=
    if_neg fun hok => h (hok f List.mem_cons_self)
  simp only [Interpreter.audit, bind_apply, hcheck]

variable {α : Type} {L : Ledger} {P : Ledger → α → Prop} {m : Run α} {M : Ledger → Run α}

/-- A check that holds changes nothing. -/
theorem Accounts.check (alarm : Failure) {ok : Ledger → Prop} (hok : ∀ K : Ledger, L <+: K → ok K)
    (h : Accounts L P m M) : Accounts L P m fun K => Run.check alarm (fun _ => ok K) >>= fun _ => M K := by
  intro σ hσ
  obtain ⟨L', hL, hleaves, haudit⟩ := h σ hσ
  refine ⟨L', hL, hleaves, fun K hK => ?_⟩
  have hcheck : Run.check alarm (fun _ => ok K) σ = .done () σ := if_pos (hok K (hL.trans hK))
  simp only [bind_apply, hcheck]
  exact haudit K hK

theorem Accounts.checkValue (alarm : Failure) {m : Run Value} {M : Ledger → Run Value}
    (h : Accounts L Value.EnteredIn m M) : Accounts L Value.EnteredIn m fun K =>
      M K >>= fun v => Run.check alarm (fun _ => v.EnteredIn K) >>= fun _ => Pure.pure v := by
  have hm : Accounts L Value.EnteredIn (m >>= Pure.pure) fun K =>
      M K >>= fun v => Run.check alarm (fun _ => v.EnteredIn K) >>= fun _ => Pure.pure v :=
    Accounts.bind h fun L' _ v hv => Accounts.check alarm (fun K hK => hv.mono hK) (Accounts.pure hv)
  rw [bind_pure] at hm
  exact hm

variable {I : Interpreter} {J : Ledger → Interpreter}

theorem Audits.next (hI : Audits I J) (config : Config) : Audits (I.next config) fun K => (J K).next config where
  eval hr := Accounts.inFrame (Accounts.evalStep hI config _ hr)
  apply hf hvs := Accounts.applyStep hI hf hvs

theorem Audits.audit (hI : Audits I J) (alarm : Failure) : Audits I fun K => (J K).audit K alarm where
  eval hr := .check alarm (fun _ hK => hr.mono hK) (.checkValue alarm (hI.eval hr))
  apply hf hvs := by
    refine .check alarm (fun K hK => ?_) (.checkValue alarm (hI.apply hf hvs))
    exact List.forall_mem_cons.2 ⟨hf.mono hK, fun v hv => (hvs v hv).mono hK⟩

/-- **Evaluation keeps a ledger**, and an audit against it raises no alarm. -/
theorem audits_audited (alarm : Failure) (config : Config) (n : Nat) :
    Audits (interpreter config n) fun K => audited K alarm config n := by
  induction n with
  | zero => exact ⟨fun _ _ _ => ⟨_, List.prefix_rfl, .outOfFuel, fun _ _ => rfl⟩,
      fun _ _ _ _ => ⟨_, List.prefix_rfl, .outOfFuel, fun _ _ => rfl⟩⟩
  | succ n ih => exact (ih.next config).audit alarm

end Evaluators

end Treewalk
