import Treewalk.Proofs.Compositional

/-!
# Fuel

Fuel only decides whether an evaluation ends, never how. Two runs `Agree` when the first ends as the second does,
unless it is cut short in a way that is excused. Agreement is compositional (`compositional_agree`), so evaluators
agree if their frames do (`agree_eval_apply`); more fuel under the same limit is one case (`eval_mono`), a higher limit
with the same fuel another.

`Evaluates` and `Applies` say that an evaluation ends in an outcome, whatever fuel it takes.
-/

namespace Treewalk

open Run

/-! ## Agreement -/

section Agreement

/-- An outcome that is cut short by an excused failure, or by the want of fuel, which `none` stands for. -/
inductive Outcome.CutShort {α : Type} (excused : Option Failure → Prop) : Outcome α → Prop
  | outOfFuel : excused none → CutShort excused .outOfFuel
  | failed {failure : Failure} {store : Store} : excused (some failure) → CutShort excused (.failed failure store)

/-- A run ends as another does, unless it is cut short. -/
def Run.Agree {α : Type} (excused : Option Failure → Prop) (m m' : Run α) : Prop :=
  ∀ store, (m store).CutShort excused ∨ m store = m' store

variable (excused : Option Failure → Prop)

theorem Run.Agree.refl {α : Type} (m : Run α) : Agree excused m m :=
  fun _ => Or.inr rfl

variable {excused}

theorem Run.Agree.bind {α β : Type} {m m' : Run α} {f f' : α → Run β} (hm : Agree excused m m')
    (hf : ∀ a, Agree excused (f a) (f' a)) : Agree excused (m >>= f) (m' >>= f') := by
  intro store
  rw [bind_apply, bind_apply]
  rcases hm store with h | h
  · refine Or.inl ?_
    cases hr : m store with
    | outOfFuel => rw [hr] at h; cases h with | outOfFuel h => exact .outOfFuel h
    | failed failure store' => rw [hr] at h; cases h with | failed h => exact .failed h
    | done a store' => rw [hr] at h; cases h
  · rw [h]
    cases m' store with
    | outOfFuel => exact Or.inr rfl
    | failed failure store' => exact Or.inr rfl
    | done a store' => exact hf a store'

theorem compositional_agree (excused : Option Failure → Prop) (strategy : Strategy) :
    Compositional strategy fun m : Bool → Run _ => Agree excused (m false) (m true) where
  pure _ := .refl _ _
  bind := .bind
  fail _ _ := .refl _ _
  freshId := .refl _ _
  newCell := .refl _ _
  noteIdentityTest _ := .refl _ _
  memo? _ _ := .refl _ _
  memoize _ _ _ := .refl _ _

/-- Two runs that agree with a frame open agree when they open it. -/
theorem Run.Agree.inFrame {α : Type} {e : Expr} {stack : CallStack} {limit limit' : Option Nat}
    {body body' : CallStack → Run α}
    (hattach : ∀ (stack : CallStack) failure, excused (some failure) → excused (some (stack.attach failure)))
    (hpush : stack.pushWithin limit e = .ok (stack.push e))
    (hpush' : stack.pushWithin limit' e = .ok (stack.push e))
    (h : Agree excused (body (stack.push e)) (body' (stack.push e))) :
    Agree excused (inFrame limit e stack body) (inFrame limit' e stack body') := by
  intro store
  simp only [Run.inFrame, hpush, hpush']
  rcases h store with h | h
  · refine Or.inl ?_
    cases hr : body (stack.push e) store with
    | outOfFuel => rw [hr] at h; cases h with | outOfFuel h => exact .outOfFuel h
    | failed failure store' => rw [hr] at h; cases h with | failed h => exact .failed (hattach _ _ h)
    | done a store' => rw [hr] at h; cases h
  · exact Or.inr (by rw [h])

end Agreement

/-! ## Evaluators whose frames agree -/

section Evaluators

theorem eval_succ (config : Config) (n : Nat) (e : Expr) (env : Env) (stack : CallStack) :
    eval config (n + 1) e env stack =
      inFrame config.maxDepth e stack fun inner => (interpreter config n).evalStep config e env inner := rfl

theorem apply_succ (config : Config) (n : Nat) (callee : Value) (args : List Value) (stack : CallStack) :
    apply config (n + 1) callee args stack = (interpreter config n).applyStep callee args stack := rfl

/-- A compositional property of single runs that frames keep is one of all evaluations and applications. -/
theorem Compositional.eval_apply {config : Config} {P : ∀ {α : Type}, (Unit → Run α) → Prop}
    (hP : Compositional config.strategy P)
    (hframe : ∀ {α : Type} {e : Expr} {stack : CallStack} {body : CallStack → Run α},
      (∀ inner, P fun _ => body inner) → P fun _ => inFrame config.maxDepth e stack body)
    (hfuel : P fun _ => (Run.outOfFuel : Run Value)) :
    ∀ n, (∀ e env stack, P fun _ => eval config n e env stack) ∧
      ∀ callee args stack, P fun _ => apply config n callee args stack
  | 0 => ⟨fun _ _ _ => hfuel, fun _ _ _ => hfuel⟩
  | n + 1 => by
    obtain ⟨heval, happly⟩ := hP.eval_apply hframe hfuel n
    let I : Unit → Interpreter := fun _ => interpreter config n
    constructor
    · intro e env stack
      have hdeclare : ∀ decl env stack, P fun _ =>
          inFrame config.maxDepth (.declare decl) stack ((interpreter config n).declare decl env) :=
        fun decl env _ => hframe fun inner =>
          hP.declare I (fun _ => inner) (fun e env => heval e env inner) decl env
      refine hframe fun inner => ?_
      exact hP.evalStep I (fun _ => inner) (fun e env => heval e env inner) (fun _ => config) (fun _ => rfl)
        (fun callee args => happly callee args inner) (fun decl env => hdeclare decl env inner) e env
    · intro callee args stack
      refine hP.applyStep I (fun _ => stack) callee args (fun e env => heval e env stack) fun builtin collected _ => ?_
      refine hP.callBuiltin I (fun _ => stack) builtin _ fun op func coll _ => ?_
      exact hP.combine I (fun _ => stack) op func fun before v _ => happly func (before ++ [v]) stack

variable {excused : Option Failure → Prop} (config config' : Config)

/-- Evaluators of one strategy agree if their frames do, where the second has at least as much fuel, and more only if
the want of fuel is excused. -/
theorem agree_eval_apply (hstrategy : config.strategy = config'.strategy)
    (hframe : ∀ {α : Type} (e : Expr) (stack : CallStack) (body body' : CallStack → Run α),
      Agree excused (body (stack.push e)) (body' (stack.push e)) →
        Agree excused (inFrame config.maxDepth e stack body) (inFrame config'.maxDepth e stack body')) {d : Nat}
    (hd : d = 0 ∨ excused none) :
    ∀ n, (∀ e env stack, Agree excused (eval config n e env stack) (eval config' (n + d) e env stack)) ∧
      ∀ callee args stack, Agree excused (apply config n callee args stack) (apply config' (n + d) callee args stack)
  | 0 => by
    rcases hd with rfl | hd
    · exact ⟨fun _ _ _ _ => Or.inr rfl, fun _ _ _ _ => Or.inr rfl⟩
    · exact ⟨fun _ _ _ _ => Or.inl (.outOfFuel hd), fun _ _ _ _ => Or.inl (.outOfFuel hd)⟩
  | n + 1 => by
    obtain ⟨heval, happly⟩ := agree_eval_apply hstrategy hframe hd n
    have hP := compositional_agree excused config.strategy
    -- the two evaluators as a family over `Bool`
    let I : Bool → Interpreter := fun i => cond i (interpreter config' (n + d)) (interpreter config n)
    have hcombine : ∀ stack op func coll, Agree excused
        ((I false).combine op func coll stack) ((I true).combine op func coll stack) :=
      fun stack op func coll => hP.combine I (fun _ => stack) op func
        fun before v _ => happly func (before ++ [v]) stack
    rw [Nat.add_right_comm]
    constructor
    · intro e env stack
      rw [eval_succ, eval_succ]
      refine hframe e stack _ _ ?_
      refine hP.evalStep I (fun _ => stack.push e) (fun e' env' => heval e' env' _)
        (fun i => cond i config' config) ?_ (fun callee args => happly callee args _) ?_ e env
      · intro i; cases i
        · rfl
        · exact hstrategy.symm
      · intro decl env'
        refine hframe _ _ _ _ ?_
        exact hP.declare I (fun _ => (stack.push e).push _) (fun e' env' => heval e' env' _) decl env'
    · intro callee args stack
      rw [apply_succ, apply_succ]
      refine hP.applyStep I (fun _ => stack) callee args (fun e env => heval e env stack) ?_
      intro builtin collected _
      exact hP.callBuiltin I (fun _ => stack) builtin _ fun op func coll _ => hcombine stack op func coll

end Evaluators

/-! ## More fuel -/

section MoreFuel

variable {config : Config} {n k : Nat} {store : Store} {stack : CallStack}

/-- With more fuel under the same limit, the evaluators agree. -/
theorem agree_more_fuel (config : Config) (h : n ≤ k) :
    (∀ e env stack, Agree (· = none) (eval config n e env stack) (eval config k e env stack)) ∧
      ∀ callee args stack, Agree (· = none) (apply config n callee args stack) (apply config k callee args stack) := by
  obtain ⟨d, rfl⟩ := Nat.exists_eq_add_of_le h
  refine agree_eval_apply config config rfl (fun e stack body body' hbody => ?_) (Or.inr (by rfl)) n
  cases hp : stack.pushWithin config.maxDepth e with
  | error cause =>
    simp only [inFrame, hp]
    exact Agree.refl _ _
  | ok inner =>
    obtain rfl := CallStack.eq_push_of_pushWithin hp
    exact Agree.inFrame (fun _ _ => nofun) hp hp hbody

/-- An evaluation that ends does so with any greater fuel. -/
theorem eval_mono (h : n ≤ k) {e : Expr} {env : Env} (hends : eval config n e env stack store ≠ .outOfFuel) :
    eval config k e env stack store = eval config n e env stack store := by
  rcases (agree_more_fuel config h).1 e env stack store with hcut | heq
  · cases hr : eval config n e env stack store with
    | outOfFuel => exact absurd hr hends
    | failed failure store' => rw [hr] at hcut; cases hcut with | failed h => cases h
    | done v store' => rw [hr] at hcut; cases hcut
  · exact heq.symm

theorem Outcome.done_ne_outOfFuel {α : Type} (a : α) (store : Store) : Outcome.done a store ≠ .outOfFuel :=
  nofun

theorem Outcome.failed_ne_outOfFuel {α : Type} (failure : Failure) (store : Store) :
    (Outcome.failed failure store : Outcome α) ≠ .outOfFuel :=
  nofun

/-- An expression evaluates to an outcome, whatever fuel it takes. -/
def Evaluates (config : Config) (e : Expr) (env : Env) (stack : CallStack) (store : Store)
    (outcome : Outcome Value) : Prop :=
  outcome ≠ .outOfFuel ∧ ∃ n, eval config n e env stack store = outcome

/-- A function applies to arguments with an outcome, whatever fuel it takes. -/
def Applies (config : Config) (callee : Value) (args : List Value) (stack : CallStack) (store : Store)
    (outcome : Outcome Value) : Prop :=
  outcome ≠ .outOfFuel ∧ ∃ n, apply config n callee args stack store = outcome

/-- What holds of all large fuel but one unit less holds of all large fuel. -/
theorem eventually_of_succ {p : Nat → Prop} (h : ∀ᶠ n in Filter.atTop, p (n + 1)) : ∀ᶠ n in Filter.atTop, p n := by
  rw [← Filter.map_add_atTop_eq_nat 1]
  exact h

theorem Evaluates.of_eventually {e : Expr} {env : Env} {outcome : Outcome Value} (hends : outcome ≠ .outOfFuel)
    (h : ∀ᶠ n in Filter.atTop, eval config n e env stack store = outcome) :
    Evaluates config e env stack store outcome :=
  ⟨hends, h.exists⟩

theorem Evaluates.eventually {e : Expr} {env : Env} {outcome : Outcome Value}
    (h : Evaluates config e env stack store outcome) :
    ∀ᶠ n in Filter.atTop, eval config n e env stack store = outcome := by
  obtain ⟨hends, n, rfl⟩ := h
  exact Filter.eventually_atTop.2 ⟨n, fun k hk => eval_mono hk hends⟩

theorem Evaluates.unique {e : Expr} {env : Env} {outcome outcome' : Outcome Value}
    (h : Evaluates config e env stack store outcome) (h' : Evaluates config e env stack store outcome') :
    outcome = outcome' := by
  obtain ⟨n, hn, hn'⟩ := (h.eventually.and h'.eventually).exists
  exact hn.symm.trans hn'

/-- Whatever the fuel, it is too little, or the outcome is this one. -/
theorem Evaluates.eval_eq_or {e : Expr} {env : Env} {outcome : Outcome Value}
    (h : Evaluates config e env stack store outcome) (n : Nat) :
    eval config n e env stack store = .outOfFuel ∨ eval config n e env stack store = outcome := by
  by_cases hn : eval config n e env stack store = .outOfFuel
  · exact Or.inl hn
  · exact Or.inr (Evaluates.unique ⟨hn, n, rfl⟩ h)

end MoreFuel

end Treewalk
