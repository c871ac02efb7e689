import Treewalk.Proofs.Fuel
import Treewalk.Proofs.Handlers

/-!
# Failures blame the right expression

A failure arises without a backtrace, in an operation, a builtin or a binding, and gets the backtrace of the first
frame that it leaves. `Cause.Blames` says which expressions each cause can be blamed on, and the innermost frame of a
backtrace is always that of such an expression.

A backtrace shows only part of a stack. To speak of the stack that was captured, `interpreterNoting` is the evaluator
that takes a note of a stack in the place of its backtrace. `Captures` holds of a stack if the note of a failure is
always that of this stack, whatever is noted. There is at most one such stack (`Captures.unique`).

* Runs that differ in what they note end alike, but for the note (`Run.Reports`). A failure without a note has a cause
  that is allowed where it arises: in an application, one that can be blamed on every application
  (`Run.Reports.applyStep`), and in a step of the evaluator, one that can be blamed on the expression
  (`Run.Reports.evalStepHandling`).
* A frame turns the causes that can be blamed on its expression into notes of a stack with this expression on top
  (`Run.Reports.inFrameHandling`). Only an exhausted limit leaves a frame without one.

Together: **failures blame the right expression** (`failures_blame_their_expression`).
-/

namespace Treewalk

open Run

/-! ## Blame -/

section Blame

/-- Whether the expression applies a function: an application, a pipe or a combinator. -/
def Expr.isApplication : Expr → Bool
  | .apply _ _ | .pipe _ _ | .combine _ _ _ => true
  | _ => false

/-- Whether the expression is a function as it stands. -/
def Expr.isLambda : Expr → Bool
  | .lambda _ _ => true
  | _ => false

/-- The declaration binds a name to a value that has to be a function and can call itself. -/
def Decl.BindsRecursively (decl : Decl) (name : String) (value : Expr) : Prop :=
  decl = .recursive name value ∨ decl = .lazyRecursive name value

/-- The expressions that a cause can be blamed on. -/
def Cause.Blames : Cause → Expr → Prop
  | .unboundVariable name, t => t = .symbol name
  | .wrongBindingList name, t => ∃ decl value, decl.BindsRecursively name value ∧ value.isLambda = false ∧
      (t = .declare decl ∨ ∃ body, t = .letIn decl body)
  | .emptySequence, t => t = .sequence []
  | .operandMismatch op _ _, t => ∃ l r, t = .operator op l r
  | .divisionByZero, t => ∃ l r, t = .operator .div l r
  | .moduloByZero, t => ∃ l r, t = .operator .mod l r
  | .overflow operation, t =>
    if operation = "length" then t.isApplication = true
    else (∃ op ∈ Operator.arithmetic, ∃ l r, t = .operator op l r) ∨ ∃ e, t = .neg e
  | .emptyList _, t => (∃ e, t = .head e ∨ t = .tail e) ∨ t.isApplication = true
  | .keyNotFound _, t => (∃ k d, t = .getKey k d) ∨ t.isApplication = true
  | .notCallable _, t | .arityMismatch _ _ _, t | .emptyFold, t => t.isApplication = true
  | .typeMismatch _ _, _ | .stackUnderflow, _ | .recursionLimit _, _ => True

/-- A cause that can be blamed on every expression. -/
def Cause.Anywhere (cause : Cause) : Prop :=
  ∀ t, cause.Blames t

/-- A cause that can be blamed on every application. -/
def Cause.InApplication (cause : Cause) : Prop :=
  ∀ t : Expr, t.isApplication = true → cause.Blames t

theorem Cause.Anywhere.inApplication {cause : Cause} (h : cause.Anywhere) : cause.InApplication :=
  fun t _ => h t

end Blame

/-! ## What operations raise -/

section Operations

variable {cause : Cause}

/-- What an operator raises can be blamed on it. -/
theorem Operator.blames {op : Operator} {a b : Value} (h : op.apply a b = .error cause) (l r : Expr) :
    cause.Blames (.operator op l r) := by
  obtain rfl | ⟨rfl, rfl⟩ | ⟨rfl, rfl⟩ | ⟨hop, operation, hname, rfl⟩ := Operator.apply_error h
  · exact ⟨l, r, rfl⟩
  · exact ⟨l, r, rfl⟩
  · exact ⟨l, r, rfl⟩
  · rw [Cause.Blames, if_neg hname]
    exact .inl ⟨op, hop, l, r, rfl⟩

/-- What a unary operation raises can be blamed on it, and on an application unless it is a negation. -/
theorem Unary.blames {op : Unary} {v : Value} (h : op.apply v = .error cause) :
    (∀ e, cause.Blames (.unary op e)) ∧ (op ≠ .neg → cause.InApplication) := by
  obtain ⟨_, _, rfl⟩ | ⟨rfl | rfl, _, rfl⟩ | ⟨rfl, rfl⟩ := Unary.apply_error h
  · exact ⟨fun _ => trivial, fun _ _ _ => trivial⟩
  · exact ⟨fun e => .inl ⟨e, .inl rfl⟩, fun _ _ ht => .inr ht⟩
  · exact ⟨fun e => .inl ⟨e, .inr rfl⟩, fun _ _ ht => .inr ht⟩
  · refine ⟨fun e => ?_, fun hne => absurd rfl hne⟩
    rw [Cause.Blames, if_neg (by decide)]
    exact .inr ⟨e, rfl⟩

/-- What a binary operation raises can be blamed on it, and on an application unless it is an operator. -/
theorem Binary.blames {op : Binary} {a b : Value} (h : op.apply a b = .error cause) :
    (∀ l r, cause.Blames (.binary op l r)) ∧ ((∀ o, op ≠ .operator o) → cause.InApplication) := by
  obtain ⟨o, rfl, ho⟩ | ⟨_, _, rfl⟩ | ⟨rfl, _, rfl⟩ := Binary.apply_error h
  · exact ⟨Operator.blames ho, fun hne => absurd rfl (hne o)⟩
  · exact ⟨fun _ _ => trivial, fun _ _ _ => trivial⟩
  · exact ⟨fun l r => .inl ⟨l, r, rfl⟩, fun _ _ ht => .inr ht⟩

theorem Value.insert_blames {key value dict : Value} (h : Value.insert key value dict = .error cause) :
    cause.Anywhere := by
  rw [Value.insert_error h]
  exact fun _ => trivial

theorem Value.length_blames {v : Value} (h : v.length = .error cause) : cause.InApplication := by
  obtain ⟨_, _, rfl⟩ | rfl := Value.length_error h
  · exact fun _ _ => trivial
  · exact fun _ ht => ht

end Operations

/-- The evaluator with the given fuel that takes notes in the place of backtraces. -/
def interpreterNoting (note : Note) (config : Config) (n : Nat) : Interpreter :=
  interpreterHandling (CallStack.attachNote note) config n

/-! ## Reports -/

section Reports

/-- How runs end that differ in what they note: alike, but for the note of a failure that has one. The stack that is
noted has an expression on top that the cause can be blamed on, and a failure without a note has an allowed cause. -/
inductive Outcome.Reported (allowed : Cause → Prop) (outcomes : Note → Outcome α) : Prop
  | outOfFuel (h : ∀ note, outcomes note = .outOfFuel)
  | done (a : α) (store : Store) (h : ∀ note, outcomes note = .done a store)
  | raised (cause : Cause) (store : Store) (hallowed : allowed cause)
      (h : ∀ note, outcomes note = .failed ⟨cause, none⟩ store)
  | noted (cause : Cause) (captured : CallStack) (t : Expr) (store : Store) (htop : captured.top? = some t)
      (hblames : cause.Blames t) (h : ∀ note, outcomes note = .failed ⟨cause, some (note captured)⟩ store)

/-- Runs that end alike but for the note, on every store. -/
def Run.Reports (allowed : Cause → Prop) (m : Note → Run α) : Prop :=
  ∀ store, Outcome.Reported allowed fun note => m note store

namespace Run.Reports

variable {α β : Type} {allowed allowed' : Cause → Prop}

theorem mono {m : Note → Run α} (hm : Reports allowed m) (h : ∀ cause, allowed cause → allowed' cause) :
    Reports allowed' m := by
  intro store
  cases hm store with
  | outOfFuel hout => exact .outOfFuel hout
  | done a store' hdone => exact .done a store' hdone
  | raised cause store' hallowed hfailed => exact .raised cause store' (h cause hallowed) hfailed
  | noted cause captured t store' htop hblames hfailed => exact .noted cause captured t store' htop hblames hfailed

/-- A run that notes nothing and does not fail. -/
theorem of_done {m : Run α} (h : ∀ store, ∃ a store', m store = .done a store') : Reports allowed fun _ => m := by
  intro store
  obtain ⟨a, store', hm⟩ := h store
  exact .done a store' fun _ => hm

theorem bind {m : Note → Run α} {f : Note → α → Run β} (hm : Reports allowed m)
    (hf : ∀ a, Reports allowed fun note => f note a) : Reports allowed fun note => m note >>= f note := by
  intro store
  simp only [bind_apply]
  cases hm store with
  | outOfFuel h =>
    refine .outOfFuel fun note => ?_
    rw [h note]
  | done a store' h =>
    simp only [h]
    exact hf a store'
  | raised cause store' hallowed h =>
    refine .raised cause store' hallowed fun note => ?_
    rw [h note]
  | noted cause captured t store' htop hblames h =>
    refine .noted cause captured t store' htop hblames fun note => ?_
    rw [h note]

theorem sequential (allowed : Cause → Prop) : Sequential fun m : Note → Run _ => Reports allowed m where
  pure a := of_done fun store => ⟨a, store, rfl⟩
  bind := bind

theorem fail {cause : Cause} (h : allowed cause) : Reports allowed fun _ => (Run.fail cause : Run α) :=
  fun store => .raised cause store h fun _ => rfl

theorem ofExcept {x : Except Cause α} (h : ∀ cause, x = .error cause → allowed cause) :
    Reports allowed fun _ => Run.ofExcept x := by
  cases x with
  | ok a => exact (sequential allowed).pure a
  | error cause => exact fail (h cause rfl)

theorem freshId : Reports allowed fun _ => Run.freshId :=
  of_done fun _ => ⟨_, _, rfl⟩

theorem newCell : Reports allowed fun _ => Run.newCell :=
  of_done fun _ => ⟨_, _, rfl⟩

theorem noteIdentityTest (tested : Bool) : Reports allowed fun _ => Run.noteIdentityTest tested :=
  of_done fun _ => ⟨_, _, rfl⟩

theorem memo? (cell : Nat) : Reports allowed fun _ => Run.memo? cell :=
  of_done fun _ => ⟨_, _, rfl⟩

theorem memoize (cell : Nat) (v : Value) : Reports allowed fun _ => Run.memoize cell v := by
  refine of_done fun store => ?_
  unfold Run.memoize
  split
  · exact ⟨_, _, rfl⟩
  · exact ⟨_, _, rfl⟩

theorem addPair (dict : Dict) (key value : Value) : Reports allowed fun _ => Run.addPair dict key value :=
  bind (noteIdentityTest _) fun _ => (sequential _).pure _

/-! ### Frames -/

/-- A frame notes the stack with its expression on top, for the causes that can be blamed on it. A refused frame leaves
a cause that can be blamed on any expression. -/
theorem inFrameHandling {limit : Option Nat} {e : Expr} {stack : CallStack} {body : Note → CallStack → Run α}
    (h : Reports (·.Blames e) fun note => body note (stack.push e)) :
    Reports Cause.Anywhere fun note => Run.inFrameHandling (CallStack.attachNote note) limit e stack (body note) := by
  intro store
  rcases stack.pushWithin_cases limit e with ⟨m, -, hpush⟩ | hpush
  · simp only [Run.inFrameHandling, hpush]
    exact .raised (.recursionLimit m) store (fun _ => trivial) fun _ => rfl
  · simp only [Run.inFrameHandling, hpush]
    cases h store with
    | outOfFuel hbody =>
      refine .outOfFuel fun note => ?_
      simp only [show body note (stack.push e) store = _ from hbody note]
    | done a store' hbody =>
      refine .done a store' fun note => ?_
      simp only [show body note (stack.push e) store = _ from hbody note]
    | raised cause store' hblames hbody =>
      refine .noted cause (stack.push e) e store' rfl hblames fun note => ?_
      simp only [show body note (stack.push e) store = _ from hbody note]
      rfl
    | noted cause captured t store' htop hblames hbody =>
      refine .noted cause captured t store' htop hblames fun note => ?_
      simp only [show body note (stack.push e) store = _ from hbody note]
      rfl

/-! ### Applications -/

section Applications

variable {I : Note → Interpreter} {stack : CallStack}

theorem unary {op : Unary} (hop : op ≠ .neg) (v : Value) : Reports Cause.InApplication fun _ => Run.unary op v :=
  ofExcept fun _ h => (Unary.blames h).2 hop

theorem binary {op : Binary} (hop : ∀ o, op ≠ .operator o) (a b : Value) :
    Reports Cause.InApplication fun _ => Run.binary op a b :=
  bind (noteIdentityTest _) fun _ => ofExcept fun _ h => (Binary.blames h).2 hop

theorem insert (key value dict : Value) : Reports Cause.Anywhere fun _ => Run.insert key value dict :=
  bind (noteIdentityTest _) fun _ => ofExcept fun _ h => Value.insert_blames h

theorem mapOver {f : Note → Value → Run Value} (h : ∀ v, Reports Cause.InApplication fun note => f note v) :
    ∀ coll, Reports Cause.InApplication fun note => Run.mapOver (f note) coll
  | .list _ => (sequential _).map _ ((sequential _).mapM fun v _ => h v)
  | .dict _ => by
    refine (sequential _).map _ ((sequential _).mapM fun p _ => ?_)
    exact bind (h p.2) fun v => (sequential _).pure (p.1, v)
  | .unit | .int _ | .bool _ | .str _ | .closure _ _ _ _ _ | .primitive _ _ => fail fun _ _ => trivial

theorem filterOver {f : Note → Value → Run Bool} (h : ∀ v, Reports Cause.InApplication fun note => f note v) :
    ∀ coll, Reports Cause.InApplication fun note => Run.filterOver (f note) coll
  | .list _ => (sequential _).map _ ((sequential _).filterM fun v _ => h v)
  | .dict _ => (sequential _).map _ ((sequential _).filterM fun p _ => h p.2)
  | .unit | .int _ | .bool _ | .str _ | .closure _ _ _ _ _ | .primitive _ _ => fail fun _ _ => trivial

theorem foldAll {f : Note → Value → Value → Run Value}
    (h : ∀ acc v, Reports Cause.InApplication fun note => f note acc v) (vs : List Value) :
    Reports Cause.InApplication fun note => Run.foldAll (f note) vs := by
  cases vs with
  | nil => exact fail fun _ ht => ht
  | cons v vs => exact (sequential _).foldlM v fun acc v' _ => h acc v'

theorem foldOver {f : Note → Value → Value → Run Value}
    (h : ∀ acc v, Reports Cause.InApplication fun note => f note acc v) :
    ∀ coll, Reports Cause.InApplication fun note => Run.foldOver (f note) coll
  | .list _ => foldAll h _
  | .dict _ => foldAll h _
  | .unit | .int _ | .bool _ | .str _ | .closure _ _ _ _ _ | .primitive _ _ => fail fun _ _ => trivial

variable (happly : ∀ callee args, Reports Cause.InApplication fun note => (I note).apply callee args stack)
include happly

theorem test (predicate v : Value) : Reports Cause.InApplication fun note => (I note).test predicate v stack := by
  refine bind (happly predicate [v]) fun r => ?_
  cases r with
  | bool b => exact (sequential _).pure b
  | unit | int | str | list | dict | closure | primitive => exact fail fun _ _ => trivial

theorem combine (op : Combinator) (func coll : Value) :
    Reports Cause.InApplication fun note => (I note).combine op func coll stack := by
  by_cases hc : func.isCallable
  · cases op <;> simp only [Interpreter.combine, hc, if_true]
    case map => exact mapOver (fun v => happly func [v]) coll
    case filter => exact filterOver (fun v => test happly func v) coll
    case fold => exact foldOver (fun acc v => happly func [acc, v]) coll
  · simp only [Interpreter.combine, hc]
    exact fail fun _ ht => ht

theorem callBuiltin (builtin : Builtin) (args : List Value) :
    Reports Cause.InApplication fun note => (I note).callBuiltin builtin args stack := by
  unfold Interpreter.callBuiltin
  split
  case h_1 | h_2 | h_3 => exact unary (by decide) _
  case h_4 => exact ofExcept fun _ h => Value.length_blames h
  case h_5 | h_6 | h_7 | h_8 =>
    refine binary ?_ _ _
    exact fun _ => nofun
  case h_9 => exact (insert _ _ _).mono fun _ => Cause.Anywhere.inApplication
  case h_10 | h_11 | h_12 => exact combine happly _ _ _
  case h_13 => exact fail fun _ ht => ht

/-- What an application raises can be blamed on every application. -/
theorem applyStep (heval : ∀ e env, Reports Cause.Anywhere fun note => (I note).eval e env stack) (callee : Value)
    (args : List Value) : Reports Cause.InApplication fun note => (I note).applyStep callee args stack := by
  cases callee with
  | closure id self params body env =>
    unfold Interpreter.applyStep
    dsimp only
    split
    · exact fail fun _ ht => ht
    · split
      · exact bind freshId fun id => (sequential _).pure _
      · exact (heval _ _).mono fun _ => Cause.Anywhere.inApplication
  | primitive builtin collected =>
    unfold Interpreter.applyStep
    dsimp only
    split
    · exact fail fun _ ht => ht
    · split
      · exact (sequential _).pure _
      · exact callBuiltin happly builtin _
  | unit | int | bool | str | list | dict => exact fail fun _ ht => ht

end Applications

/-! ### Expressions -/

section Expressions

variable {I : Note → Interpreter} {stack : CallStack} {limit : Option Nat}

theorem of_anywhere {m : Note → Run α} (hm : Reports Cause.Anywhere m) (t : Expr) : Reports (·.Blames t) m :=
  hm.mono fun _ h => h t

variable (heval : ∀ e env, Reports Cause.Anywhere fun note => (I note).eval e env stack)
include heval

/-- A thunk is evaluated in a frame of its own, so the name is to blame only if it is not bound. -/
theorem lookup (strategy : Strategy) (name : String) (env : Env) :
    Reports (·.Blames (.symbol name)) fun note => (I note).lookup strategy name env stack := by
  unfold Interpreter.lookup
  cases env.lookup? name with
  | none => exact fail rfl
  | some binding =>
    cases binding with
    | value v => exact (sequential _).pure v
    | thunk cell e captured =>
      cases strategy with
      | byName => exact (heval e captured).of_anywhere _
      | byNeed =>
        refine bind (memo? cell) fun held => ?_
        cases held with
        | some v => exact (sequential _).pure v
        | none => exact bind ((heval e captured).of_anywhere _) fun v => memoize cell v

/-- A declaration raises what its right-hand sides do, and refuses a recursive binding of anything but a function. -/
theorem declare (decl : Decl) (env : Env) {t : Expr} (ht : t = .declare decl ∨ ∃ body, t = .letIn decl body) :
    Reports (·.Blames t) fun note => (I note).declare decl env stack := by
  cases decl with
  | eager bindings =>
    refine bind ?_ fun vs => (sequential _).pure _
    exact (sequential _).mapM fun p _ => (heval p.2 env).of_anywhere t
  | lazy bindings =>
    exact (sequential _).foldlM env fun extended p _ => bind newCell fun cell => (sequential _).pure _
  | recursive name value =>
    cases value with
    | lambda params body => exact bind freshId fun id => (sequential _).pure _
    | _ => exact fail ⟨_, _, .inl rfl, rfl, ht⟩
  | lazyRecursive name value =>
    cases value with
    | lambda params body => exact bind newCell fun cell => (sequential _).pure _
    | _ => exact fail ⟨_, _, .inr rfl, rfl, ht⟩

variable (hdeclare : ∀ decl env, Reports Cause.Anywhere fun note =>
  Run.inFrameHandling (CallStack.attachNote note) limit (.declare decl) stack
    fun inner => (I note).declare decl env inner)
include hdeclare

theorem sequenceItemHandling (e : Expr) (env : Env) :
    Reports Cause.Anywhere fun note => (I note).sequenceItemHandling (CallStack.attachNote note) limit e env stack := by
  cases e with
  | declare decl => exact bind (hdeclare decl env) fun extended => (sequential _).pure _
  | _ => exact bind (heval _ env) fun v => (sequential _).pure _

theorem sequenceHandling (items : List Expr) (env : Env) :
    Reports (·.Blames (.sequence items)) fun note =>
      (I note).sequenceHandling (CallStack.attachNote note) limit items env stack := by
  unfold Interpreter.sequenceHandling
  cases items with
  | nil => exact fail rfl
  | cons e es =>
    refine bind ?_ fun state => (sequential _).pure state.2
    refine (sequential _).foldlM (env, Value.unit) fun state e _ => ?_
    exact (sequenceItemHandling heval hdeclare e state.1).of_anywhere _

end Expressions

/-- **The step lemma**: what the evaluation of an expression raises can be blamed on the expression, if the evaluations
of its parts raise only what can be blamed on every expression, and applications what can be on every application. -/
theorem evalStepHandling {I : Note → Interpreter} {stack : CallStack} (config : Config)
    (heval : ∀ e env, Reports Cause.Anywhere fun note => (I note).eval e env stack)
    (happly : ∀ callee args, Reports Cause.InApplication fun note => (I note).apply callee args stack)
    (hdeclare : ∀ decl env, Reports Cause.Anywhere fun note =>
      Run.inFrameHandling (CallStack.attachNote note) config.maxDepth (.declare decl) stack
        fun inner => (I note).declare decl env inner) (e : Expr) (env : Env) :
    Reports (·.Blames e) fun note => (I note).evalStepHandling (CallStack.attachNote note) config e env stack := by
  have hpart : ∀ e' env', Reports (·.Blames e) fun note => (I note).eval e' env' stack :=
    fun e' env' => (heval e' env').of_anywhere e
  cases e with
  | unit | integer | boolean | string => exact (sequential _).pure _
  | list items => exact bind ((sequential _).mapM fun e _ => hpart e env) fun vs => (sequential _).pure _
  | dict pairs =>
    refine bind ((sequential _).foldlM [] fun dict pair _ => ?_) fun dict => (sequential _).pure _
    exact bind (hpart pair.1 env) fun key => bind (hpart pair.2 env) fun value => addPair dict key value
  | symbol name => exact lookup heval config.strategy name env
  | unary op e => exact bind (hpart e env) fun v => ofExcept fun _ h => (Unary.blames h).1 e
  | binary op l r =>
    refine bind (hpart l env) fun a => bind (hpart r env) fun b => ?_
    exact bind (noteIdentityTest _) fun _ => ofExcept fun _ h => (Binary.blames h).1 l r
  | insert k v d =>
    refine bind (hpart k env) fun key => bind (hpart v env) fun value => bind (hpart d env) fun dict => ?_
    exact (insert key value dict).of_anywhere _
  | combine op c f =>
    refine bind (hpart c env) fun coll => bind (hpart f env) fun func => ?_
    exact (combine happly op func coll).mono fun _ h => h _ rfl
  | branch c y n =>
    refine bind (hpart c env) fun v => ?_
    cases v with
    | bool b => cases b <;> exact hpart _ env
    | unit | int | str | list | dict | closure | primitive => exact fail trivial
  | letIn decl body => exact bind (declare heval decl env (.inr ⟨body, rfl⟩)) fun extended => hpart body extended
  | declare decl => exact bind (declare heval decl env (.inl rfl)) fun _ => (sequential _).pure _
  | lambda params body => exact bind freshId fun id => (sequential _).pure _
  | apply f es =>
    refine bind (hpart f env) fun callee => bind ((sequential _).mapM fun e _ => hpart e env) fun args => ?_
    exact (happly callee args).mono fun _ h => h _ rfl
  | sequence items => exact sequenceHandling heval hdeclare items env
  | pipe f e =>
    refine bind (hpart f env) fun func => bind (hpart e env) fun arg => ?_
    exact (happly func [arg]).mono fun _ h => h _ rfl

end Run.Reports

end Reports

/-! ## Evaluations -/

section Evaluations

/-- **The run lemma**: an evaluation raises only what can be blamed on every expression, an application only what can be
blamed on every application. -/
theorem reports_eval_apply (config : Config) :
    ∀ n, (∀ e env stack, Reports Cause.Anywhere fun note => (interpreterNoting note config n).eval e env stack) ∧
      ∀ callee args stack, Reports Cause.InApplication fun note =>
        (interpreterNoting note config n).apply callee args stack
  | 0 => ⟨fun _ _ _ _ => .outOfFuel fun _ => rfl, fun _ _ _ _ => .outOfFuel fun _ => rfl⟩
  | n + 1 => by
    obtain ⟨heval, happly⟩ := reports_eval_apply config n
    constructor
    · intro e env stack
      refine Reports.inFrameHandling (Reports.evalStepHandling config (fun e' env' => heval e' env' _)
        (fun callee args => happly callee args _) (fun decl env' => ?_) e env)
      exact Reports.inFrameHandling (Reports.declare (fun e' env' => heval e' env' _) decl env' (.inl rfl))
    · intro callee args stack
      exact Reports.applyStep (fun callee args => happly callee args stack) (fun e env => heval e env stack) callee args

/-- The evaluation fails, and its backtrace is that of the stack `captured`: whatever is noted of a stack in the place
of its backtrace, it is noted of this one. -/
def Captures (config : Config) (n : Nat) (e : Expr) (env : Env) (stack : CallStack) (store : Store)
    (captured : CallStack) : Prop :=
  ∃ cause store', ∀ note,
    (interpreterNoting note config n).eval e env stack store = .failed ⟨cause, some (note captured)⟩ store'

variable {config : Config} {n : Nat} {e : Expr} {env : Env} {stack captured other : CallStack} {store : Store}

theorem Captures.unique (h : Captures config n e env stack store captured)
    (h' : Captures config n e env stack store other) : other = captured := by
  obtain ⟨cause, store₁, h⟩ := h
  obtain ⟨cause', store₂, h'⟩ := h'
  refine CallStack.eq_of_notes fun note => ?_
  have hfailed := (h note).symm.trans (h' note)
  injection hfailed with hfailure
  injection hfailure with _ hnote
  exact Option.some.inj hnote

/-- **Failures blame the right expression.** A backtrace is that of one stack, and the cause can be blamed on the
expression of the innermost frame. -/
theorem failures_blame_their_expression (config : Config) (n : Nat) (e : Expr) (env : Env) (stack : CallStack)
    (store : Store) {failure : Failure} {trace : Backtrace} {store' : Store}
    (hfails : eval config n e env stack store = .failed failure store') (htrace : failure.backtrace = some trace) :
    ∃ captured t, Captures config n e env stack store captured ∧
      (∀ other, Captures config n e env stack store other → other = captured) ∧ trace = captured.capture ∧
      captured.top? = some t ∧ failure.cause.Blames t := by
  have hcapture : eval config n e env stack store =
      (interpreterNoting CallStack.capture config n).eval e env stack store := by
    rw [interpreterNoting, CallStack.attachNote_capture, interpreterHandling_attach]
    rfl
  rw [hfails] at hcapture
  cases (reports_eval_apply config n).1 e env stack store with
  | outOfFuel h => cases hcapture.trans (h CallStack.capture)
  | done v after h => cases hcapture.trans (h CallStack.capture)
  | raised cause after hallowed h =>
    cases hcapture.trans (h CallStack.capture)
    cases htrace
  | noted cause captured t after htop hblames h =>
    cases hcapture.trans (h CallStack.capture)
    cases htrace
    have hcaptures : Captures config n e env stack store captured := ⟨cause, store', h⟩
    exact ⟨captured, t, hcaptures, fun other hother => hcaptures.unique hother, rfl, htop, hblames⟩

/-- A division in a function that is called in a sequence: the division is to blame, not the call. -/
theorem failures_blame_their_expression_division :
    let division : Expr := .operator .div (.integer 1) (.symbol "x")
    let e : Expr := .sequence [.declare (.recursive "f" (.lambda ["x"] division)), .apply (.symbol "f") [.integer 0]]
    ∃ captured l r, Captures ⟨some 4, .byNeed⟩ 9 e [] CallStack.empty {} captured ∧
      captured.top? = some (.operator .div l r) := by
  intro division e
  have hfails : eval ⟨some 4, .byNeed⟩ 9 e [] CallStack.empty {} = .failed ⟨.divisionByZero,
      some (((CallStack.empty.push e).push (.apply (.symbol "f") [.integer 0])).push division).capture⟩
      { nextId := 1 } := rfl
  obtain ⟨captured, t, hcaptures, -, -, htop, l, r, rfl⟩ := failures_blame_their_expression _ _ _ _ _ _ hfails rfl
  exact ⟨captured, l, r, hcaptures, htop⟩

end Evaluations

end Treewalk
