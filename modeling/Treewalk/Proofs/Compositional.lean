import Mathlib.Order.Filter.AtTopBot.Basic
import Treewalk.Eval.Basic

/-!
# Properties of runs that the evaluator keeps

A family of runs is one run for each index: for each amount of fuel, each of two limits, each call stack.
A property of families is `Compositional` when the primitive runs have it and binding keeps it. For loops it is enough
that results have it and binding keeps it (`Sequential`).

* What each operation on values can raise is said once (`Operator.apply_error`, `Unary.apply_error`,
  `Binary.apply_error`). The causes are neither fatal nor about names (`Unary.operational`, `Binary.operational`), so a
  compositional property says nothing of fatal failures.
* **The step lemma** (`Compositional.evalStep`, `Compositional.applyStep`): if the parts of an expression have a
  compositional property, then the expression has it. What happens at a frame is left to each use.
-/

namespace Treewalk

open Run

/-! ## Causes that operations raise -/

section Causes

/-- The operators on integers that can overflow. -/
def Operator.arithmetic : List Operator :=
  [.add, .sub, .mul, .div, .mod]

variable {cause : Cause}

theorem fit_error {operation : String} {n : Int} (h : fit operation n = .error cause) :
    cause = .overflow operation := by
  unfold fit at h
  split at h
  · cases h
  · cases h; rfl

theorem Value.items_error {v : Value} (h : v.items = .error cause) : cause = .typeMismatch "list" v.typeName := by
  unfold Value.items at h
  split at h
  · cases h
  · cases h; rfl

theorem Value.pairs_error {v : Value} (h : v.pairs = .error cause) : cause = .typeMismatch "dict" v.typeName := by
  unfold Value.pairs at h
  split at h
  · cases h
  · cases h; rfl

/-- A failure of two operations in a row is a failure of one of them. -/
theorem except_bind_eq_error {α β : Type} {x : Except Cause α} {f : α → Except Cause β} {cause : Cause}
    (h : x >>= f = .error cause) : x = .error cause ∨ ∃ a, x = .ok a ∧ f a = .error cause := by
  cases x with
  | error c => cases h; exact Or.inl rfl
  | ok a => exact Or.inr ⟨a, rfl, h⟩

/-- What an operator raises: it names itself, or it divides by zero, or its result does not fit. -/
theorem Operator.apply_error {op : Operator} {a b : Value} (h : op.apply a b = .error cause) :
    cause = .operandMismatch op a.typeName b.typeName ∨ (op = .div ∧ cause = .divisionByZero) ∨
    (op = .mod ∧ cause = .moduloByZero) ∨
    (op ∈ Operator.arithmetic ∧ ∃ operation, operation ≠ "length" ∧ cause = .overflow operation) := by
  cases op <;> simp only [Operator.apply] at h
  case eq | ne => cases h
  case mod =>
    split at h
    · split at h
      · cases h; exact .inr (.inr (.inl ⟨rfl, rfl⟩))
      · refine .inr (.inr (.inr ⟨by decide, "modulo", by decide, ?_⟩))
        rcases except_bind_eq_error h with h | ⟨_, _, h⟩
        · exact fit_error h
        · exact fit_error h
    · cases h; exact .inl rfl
  case div =>
    split at h
    · split at h
      · cases h; exact .inr (.inl ⟨rfl, rfl⟩)
      · exact .inr (.inr (.inr ⟨by decide, "division", by decide, fit_error h⟩))
    · cases h; exact .inl rfl
  case add | sub | mul =>
    split at h
    · exact .inr (.inr (.inr ⟨by decide, _, by decide, fit_error h⟩))
    · cases h; exact .inl rfl
  case lt | le | gt | ge =>
    split at h
    · cases h
    · cases h
    · cases h
    · cases h; exact .inl rfl
  case and | or =>
    split at h
    · cases h
    · cases h; exact .inl rfl
  case concat =>
    split at h
    · cases h
    · cases h
    · cases h; exact .inl rfl

/-- What a unary operation raises: it refuses the type, or there is no first item, or no opposite that fits. -/
theorem Unary.apply_error {op : Unary} {v : Value} (h : op.apply v = .error cause) :
    (∃ expected got, cause = .typeMismatch expected got) ∨
    ((op = .head ∨ op = .tail) ∧ ∃ operation, cause = .emptyList operation) ∨
    (op = .neg ∧ cause = .overflow "negation") := by
  cases op
  case not =>
    simp only [Unary.apply, Value.not] at h
    split at h
    · cases h
    · cases h; exact .inl ⟨_, _, rfl⟩
  case neg =>
    simp only [Unary.apply, Value.neg] at h
    split at h
    · exact .inr (.inr ⟨rfl, fit_error h⟩)
    · cases h; exact .inl ⟨_, _, rfl⟩
  case head =>
    rcases except_bind_eq_error (show v.items >>= _ = _ from h) with h | ⟨vs, _, h⟩
    · exact .inl ⟨_, _, Value.items_error h⟩
    · cases vs <;> cases h
      exact .inr (.inl ⟨.inl rfl, _, rfl⟩)
  case tail =>
    rcases except_bind_eq_error (show v.items >>= _ = _ from h) with h | ⟨vs, _, h⟩
    · exact .inl ⟨_, _, Value.items_error h⟩
    · cases vs <;> cases h
      exact .inr (.inl ⟨.inr rfl, _, rfl⟩)

/-- What a binary operation raises: what its operator does, or it refuses the type, or a key is not there. -/
theorem Binary.apply_error {op : Binary} {a b : Value} (h : op.apply a b = .error cause) :
    (∃ o, op = .operator o ∧ o.apply a b = .error cause) ∨ (∃ expected got, cause = .typeMismatch expected got) ∨
    (op = .getKey ∧ ∃ key, cause = .keyNotFound key) := by
  cases op with
  | operator op => exact .inl ⟨op, rfl, h⟩
  | cons =>
    rcases except_bind_eq_error (show b.items >>= _ = _ from h) with h | ⟨_, _, h⟩
    · exact .inr (.inl ⟨_, _, Value.items_error h⟩)
    · cases h
  | delete | hasKey =>
    rcases except_bind_eq_error (show b.pairs >>= _ = _ from h) with h | ⟨_, _, h⟩
    · exact .inr (.inl ⟨_, _, Value.pairs_error h⟩)
    · cases h
  | getKey =>
    rcases except_bind_eq_error (show b.pairs >>= _ = _ from h) with h | ⟨pairs, _, h⟩
    · exact .inr (.inl ⟨_, _, Value.pairs_error h⟩)
    · split at h
      · cases h
      · cases h; exact .inr (.inr ⟨rfl, _, rfl⟩)

theorem Value.insert_error {key value dict : Value} (h : Value.insert key value dict = .error cause) :
    cause = .typeMismatch "dict" dict.typeName := by
  rcases except_bind_eq_error (show dict.pairs >>= _ = _ from h) with h | ⟨_, _, h⟩
  · exact Value.pairs_error h
  · cases h

theorem Value.length_error {v : Value} (h : v.length = .error cause) :
    (∃ expected got, cause = .typeMismatch expected got) ∨ cause = .overflow "length" := by
  unfold Value.length at h
  split at h
  case h_4 => cases h; exact .inl ⟨_, _, rfl⟩
  all_goals exact .inr (fit_error h)

/-- A cause that an operation on values can raise. -/
def Cause.Operational (cause : Cause) : Prop :=
  cause.category ≠ .fatal ∧ cause.category ≠ .unboundVariable

theorem Operator.operational {op : Operator} {a b : Value} (h : op.apply a b = .error cause) : cause.Operational := by
  obtain rfl | ⟨-, rfl⟩ | ⟨-, rfl⟩ | ⟨-, _, -, rfl⟩ := Operator.apply_error h <;> exact ⟨nofun, nofun⟩

theorem Unary.operational {op : Unary} {v : Value} (h : op.apply v = .error cause) : cause.Operational := by
  obtain ⟨_, _, rfl⟩ | ⟨-, _, rfl⟩ | ⟨-, rfl⟩ := Unary.apply_error h <;> exact ⟨nofun, nofun⟩

theorem Binary.operational {op : Binary} {a b : Value} (h : op.apply a b = .error cause) : cause.Operational := by
  obtain ⟨o, -, ho⟩ | ⟨_, _, rfl⟩ | ⟨-, _, rfl⟩ := Binary.apply_error h
  · exact Operator.operational ho
  · exact ⟨nofun, nofun⟩
  · exact ⟨nofun, nofun⟩

theorem Value.insert_operational {key value dict : Value} (h : Value.insert key value dict = .error cause) :
    cause.Operational := by
  rw [Value.insert_error h]
  exact ⟨nofun, nofun⟩

theorem Value.length_operational {v : Value} (h : v.length = .error cause) : cause.Operational := by
  obtain ⟨_, _, rfl⟩ | rfl := Value.length_error h <;> exact ⟨nofun, nofun⟩

end Causes

/-! ## Compositional properties -/

/-- The items of a list, or the values of a dictionary: what a combinator applies its function to. -/
def Value.elements : Value → List Value
  | .list vs => vs
  | .dict pairs => pairs.map (·.2)
  | _ => []

/-- A property of families of runs that results have and that binding keeps. -/
structure Sequential {ι : Type} (P : ∀ {α : Type}, (ι → Run α) → Prop) : Prop where
  pure : ∀ {α : Type} (a : α), P fun _ => Pure.pure a
  bind : ∀ {α β : Type} {m : ι → Run α} {f : ι → α → Run β}, P m → (∀ a, P fun i => f i a) →
    P fun i => m i >>= f i

/-- A property of families of runs that the primitive runs have and that binding keeps. Memo cells are touched only by
need. -/
structure Compositional {ι : Type} (strategy : Strategy) (P : ∀ {α : Type}, (ι → Run α) → Prop) : Prop
    extends Sequential P where
  fail : ∀ {α : Type} (cause : Cause), cause.category ≠ .fatal → P fun _ => (Run.fail cause : Run α)
  freshId : P fun _ => Run.freshId
  newCell : P fun _ => Run.newCell
  noteIdentityTest : ∀ tested, P fun _ => Run.noteIdentityTest tested
  memo? : strategy = .byNeed → ∀ cell, P fun _ => Run.memo? cell
  memoize : strategy = .byNeed → ∀ cell v, P fun _ => Run.memoize cell v

/-! ### Loops -/

namespace Sequential

variable {ι : Type} {P : ∀ {α : Type}, (ι → Run α) → Prop} (hP : Sequential P)
include hP

theorem map {α β : Type} {m : ι → Run α} (g : α → β) (hm : P m) : P fun i => g <$> m i := by
  simp only [map_eq_pure_bind]
  exact hP.bind hm fun a => hP.pure (g a)

theorem mapM {α β : Type} {f : ι → α → Run β} : ∀ {as : List α}, (∀ a ∈ as, P fun i => f i a) →
    P fun i => as.mapM (f i)
  | [], _ => by simpa only [List.mapM_nil] using hP.pure []
  | a :: as, h => by
    simp only [List.mapM_cons]
    refine hP.bind (h a List.mem_cons_self) fun b => ?_
    refine hP.bind (mapM fun a' ha' => h a' (List.mem_cons_of_mem _ ha')) fun bs => ?_
    exact hP.pure (b :: bs)

theorem foldlM {α β : Type} {f : ι → β → α → Run β} : ∀ {as : List α} (b : β),
    (∀ b, ∀ a ∈ as, P fun i => f i b a) → P fun i => as.foldlM (f i) b
  | [], b, _ => by simpa only [List.foldlM_nil] using hP.pure b
  | a :: as, b, h => by
    simp only [List.foldlM_cons]
    refine hP.bind (h b a List.mem_cons_self) fun b' => ?_
    exact foldlM b' fun b a' ha' => h b a' (List.mem_cons_of_mem _ ha')

theorem filterAuxM {α : Type} {f : ι → α → Run Bool} : ∀ {as : List α} (kept : List α),
    (∀ a ∈ as, P fun i => f i a) → P fun i => as.filterAuxM (f i) kept
  | [], kept, _ => by simpa only [List.filterAuxM] using hP.pure kept
  | a :: as, kept, h => by
    simp only [List.filterAuxM]
    refine hP.bind (h a List.mem_cons_self) fun b => ?_
    exact filterAuxM (cond b (a :: kept) kept) fun a' ha' => h a' (List.mem_cons_of_mem _ ha')

theorem filterM {α : Type} {f : ι → α → Run Bool} {as : List α} (h : ∀ a ∈ as, P fun i => f i a) :
    P fun i => as.filterM (f i) := by
  simp only [List.filterM]
  exact hP.bind (hP.filterAuxM [] h) fun bs => hP.pure bs.reverse

end Sequential

namespace Compositional

variable {ι : Type} {strategy : Strategy} {P : ∀ {α : Type}, (ι → Run α) → Prop} (hP : Compositional strategy P)
include hP

/-! ### Operations -/

theorem ofExcept {α : Type} {x : Except Cause α} (h : ∀ cause, x = .error cause → cause.category ≠ .fatal) :
    P fun _ => Run.ofExcept x := by
  cases x with
  | ok a => exact hP.pure a
  | error cause => exact hP.fail cause (h cause rfl)

theorem unary (op : Unary) (v : Value) : P fun _ => Run.unary op v :=
  hP.ofExcept fun _ h => (Unary.operational h).1

theorem binary (op : Binary) (a b : Value) : P fun _ => Run.binary op a b :=
  hP.bind (hP.noteIdentityTest _) fun _ => hP.ofExcept fun _ h => (Binary.operational h).1

theorem insert (key value dict : Value) : P fun _ => Run.insert key value dict :=
  hP.bind (hP.noteIdentityTest _) fun _ => hP.ofExcept fun _ h => (Value.insert_operational h).1

theorem addPair (dict : Dict) (key value : Value) : P fun _ => Run.addPair dict key value :=
  hP.bind (hP.noteIdentityTest _) fun _ => hP.pure _

theorem mapOver {f : ι → Value → Run Value} : ∀ {coll : Value}, (∀ v ∈ coll.elements, P fun i => f i v) →
    P fun i => Run.mapOver (f i) coll
  | .list _, h => hP.map _ (hP.mapM h)
  | .dict _, h => by
    refine hP.map _ (hP.mapM fun p hp => ?_)
    exact hP.bind (h p.2 (List.mem_map_of_mem hp)) fun v => hP.pure (p.1, v)
  | .unit, _ | .int _, _ | .bool _, _ | .str _, _ | .closure _ _ _ _ _, _ | .primitive _ _, _ => hP.fail _ nofun

theorem filterOver {f : ι → Value → Run Bool} : ∀ {coll : Value}, (∀ v ∈ coll.elements, P fun i => f i v) →
    P fun i => Run.filterOver (f i) coll
  | .list _, h => hP.map _ (hP.filterM h)
  | .dict _, h => hP.map _ (hP.filterM fun p hp => h p.2 (List.mem_map_of_mem hp))
  | .unit, _ | .int _, _ | .bool _, _ | .str _, _ | .closure _ _ _ _ _, _ | .primitive _ _, _ => hP.fail _ nofun

theorem foldAll {f : ι → Value → Value → Run Value} : ∀ {vs : List Value},
    (∀ acc, ∀ v ∈ vs, P fun i => f i acc v) → P fun i => Run.foldAll (f i) vs
  | [], _ => hP.fail _ nofun
  | v :: _, h => hP.foldlM v fun acc v' hv' => h acc v' (List.mem_cons_of_mem _ hv')

theorem foldOver {f : ι → Value → Value → Run Value} : ∀ {coll : Value},
    (∀ acc, ∀ v ∈ coll.elements, P fun i => f i acc v) → P fun i => Run.foldOver (f i) coll
  | .list _, h | .dict _, h => hP.foldAll h
  | .unit, _ | .int _, _ | .bool _, _ | .str _, _ | .closure _ _ _ _ _, _ | .primitive _ _, _ => hP.fail _ nofun

/-! ### One step -/

section Step

variable (I : ι → Interpreter) (stack : ι → CallStack)

theorem test {predicate v : Value} (h : P fun i => (I i).apply predicate [v] (stack i)) :
    P fun i => (I i).test predicate v (stack i) := by
  refine hP.bind h fun r => ?_
  cases r with
  | bool b => exact hP.pure b
  | unit | int | str | list | dict | closure | primitive => exact hP.fail _ nofun

/-- A combinator applies its function to argument lists that end in an element of the collection. -/
theorem combine (op : Combinator) (func : Value) {coll : Value}
    (h : ∀ before, ∀ v ∈ coll.elements, P fun i => (I i).apply func (before ++ [v]) (stack i)) :
    P fun i => (I i).combine op func coll (stack i) := by
  by_cases hc : func.isCallable
  · cases op <;> simp only [Interpreter.combine, hc, if_true]
    case map => exact hP.mapOver fun v hv => h [] v hv
    case filter => exact hP.filterOver fun v hv => hP.test I stack (h [] v hv)
    case fold => exact hP.foldOver fun acc v hv => h [acc] v hv
  · simp only [Interpreter.combine, hc]
    exact hP.fail _ nofun

/-- A builtin that is a combinator takes the collection last. -/
theorem callBuiltin (builtin : Builtin) (args : List Value)
    (h : ∀ op func coll, args.getLast? = some coll → P fun i => (I i).combine op func coll (stack i)) :
    P fun i => (I i).callBuiltin builtin args (stack i) := by
  unfold Interpreter.callBuiltin
  split
  case h_1 | h_2 | h_3 => exact hP.unary _ _
  case h_4 => exact hP.ofExcept fun _ h => (Value.length_operational h).1
  case h_5 | h_6 | h_7 | h_8 => exact hP.binary _ _ _
  case h_9 => exact hP.insert _ _ _
  case h_10 | h_11 | h_12 => exact h _ _ _ rfl
  case h_13 => exact hP.fail _ nofun

/-- A primitive needs only the property of its own combinator, a function only that of its body. -/
theorem applyStep (callee : Value) (args : List Value)
    (heval : ∀ e env, P fun i => (I i).eval e env (stack i))
    (hcall : ∀ builtin collected, callee = .primitive builtin collected →
      P fun i => (I i).callBuiltin builtin (collected ++ args) (stack i)) :
    P fun i => (I i).applyStep callee args (stack i) := by
  cases callee with
  | closure id self params body env =>
    unfold Interpreter.applyStep
    dsimp only
    split
    · exact hP.fail _ nofun
    · split
      · exact hP.bind hP.freshId fun id => hP.pure _
      · exact heval _ _
  | primitive builtin collected =>
    unfold Interpreter.applyStep
    dsimp only
    split
    · exact hP.fail _ nofun
    · split
      · exact hP.pure _
      · exact hcall builtin collected rfl
  | unit | int | bool | str | list | dict => exact hP.fail _ nofun

variable (heval : ∀ e env, P fun i => (I i).eval e env (stack i))
include heval

theorem force (cell : Nat) (e : Expr) (env : Env) : P fun i => (I i).force strategy cell e env (stack i) := by
  cases hs : strategy with
  | byName => exact heval e env
  | byNeed =>
    refine hP.bind (hP.memo? hs cell) fun held => ?_
    cases held with
    | some v => exact hP.pure v
    | none => exact hP.bind (heval e env) fun v => hP.memoize hs cell v

theorem lookup (name : String) (env : Env) : P fun i => (I i).lookup strategy name env (stack i) := by
  unfold Interpreter.lookup
  cases env.lookup? name with
  | none => exact hP.fail _ nofun
  | some binding =>
    cases binding with
    | value v => exact hP.pure v
    | thunk cell e captured => exact hP.force I stack heval cell e captured

theorem declare (decl : Decl) (env : Env) : P fun i => (I i).declare decl env (stack i) := by
  cases decl with
  | eager bindings => exact hP.bind (hP.mapM fun p _ => heval p.2 env) fun vs => hP.pure _
  | lazy bindings => exact hP.foldlM env fun extended p _ => hP.bind hP.newCell fun cell => hP.pure _
  | recursive name value =>
    cases value with
    | lambda params body => exact hP.bind hP.freshId fun id => hP.pure _
    | _ => exact hP.fail _ nofun
  | lazyRecursive name value =>
    cases value with
    | lambda params body => exact hP.bind hP.newCell fun cell => hP.pure _
    | _ => exact hP.fail _ nofun

variable (config : ι → Config) (hconfig : ∀ i, (config i).strategy = strategy)
  (happly : ∀ callee args, P fun i => (I i).apply callee args (stack i))

include hconfig happly in
/-- An expression other than a sequence opens no frames of its own. -/
theorem evalStep_of_not_sequence {e : Expr} (he : ∀ items, e ≠ .sequence items) (env : Env) :
    P fun i => (I i).evalStep (config i) e env (stack i) := by
  cases e with
  | unit | integer | boolean | string => exact hP.pure _
  | list items => exact hP.bind (hP.mapM fun e _ => heval e env) fun vs => hP.pure _
  | dict pairs =>
    refine hP.bind (hP.foldlM [] fun dict pair _ => ?_) fun dict => hP.pure _
    exact hP.bind (heval _ env) fun key => hP.bind (heval _ env) fun value => hP.addPair dict key value
  | symbol name =>
    simp only [Interpreter.evalStep, hconfig]
    exact hP.lookup I stack heval name env
  | unary op e => exact hP.bind (heval e env) fun v => hP.unary op v
  | binary op l r => exact hP.bind (heval l env) fun a => hP.bind (heval r env) fun b => hP.binary op a b
  | insert k v d =>
    refine hP.bind (heval k env) fun key => hP.bind (heval v env) fun value => ?_
    exact hP.bind (heval d env) fun dict => hP.insert key value dict
  | combine op c f =>
    refine hP.bind (heval c env) fun coll => hP.bind (heval f env) fun func => ?_
    exact hP.combine I stack op func fun before v _ => happly func (before ++ [v])
  | branch c y n =>
    refine hP.bind (heval c env) fun v => ?_
    cases v with
    | bool b => cases b <;> exact heval _ env
    | unit | int | str | list | dict | closure | primitive => exact hP.fail _ nofun
  | letIn decl body => exact hP.bind (hP.declare I stack heval decl env) fun extended => heval body extended
  | declare decl => exact hP.bind (hP.declare I stack heval decl env) fun _ => hP.pure _
  | lambda params body => exact hP.bind hP.freshId fun id => hP.pure _
  | apply f es =>
    refine hP.bind (heval f env) fun callee => ?_
    exact hP.bind (hP.mapM fun e _ => heval e env) fun args => happly callee args
  | sequence items => exact absurd rfl (he items)
  | pipe f e => exact hP.bind (heval f env) fun func => hP.bind (heval e env) fun arg => happly func [arg]

variable (hframe : ∀ decl env, P fun i =>
  inFrame (config i).maxDepth (.declare decl) (stack i) fun inner => (I i).declare decl env inner)

include hframe in
theorem sequenceItem (e : Expr) (env : Env) :
    P fun i => (I i).sequenceItem (config i).maxDepth e env (stack i) := by
  cases e with
  | declare decl => exact hP.bind (hframe decl env) fun extended => hP.pure _
  | _ => exact hP.bind (heval _ env) fun v => hP.pure _

include hframe in
theorem sequence (items : List Expr) (env : Env) :
    P fun i => (I i).sequence (config i).maxDepth items env (stack i) := by
  unfold Interpreter.sequence
  cases items with
  | nil => exact hP.fail _ nofun
  | cons e es =>
    refine hP.bind (hP.foldlM (env, Value.unit) fun state e _ => ?_) fun state => hP.pure state.2
    exact hP.sequenceItem I stack heval config hframe e state.1

include hconfig happly hframe in
/-- **The step lemma**: an expression has the property if its parts have it. -/
theorem evalStep (e : Expr) (env : Env) : P fun i => (I i).evalStep (config i) e env (stack i) := by
  cases e with
  | sequence items => exact hP.sequence I stack heval config hframe items env
  | _ =>
    refine hP.evalStep_of_not_sequence I stack heval config hconfig happly ?_ env
    exact fun _ => nofun

end Step

end Compositional

end Treewalk
