import Treewalk.Proofs.Invariants

/-!
# Builtins await arguments

A builtin that has got all its arguments is run at once, so a builtin that is a value awaits at least one more.

* **What a value holds** (`Value.Holds`): its items, keys, stored values and arguments, what its captured environments
  bind, what the memo cells of its thunks hold, and so on. Every builtin in it awaits an argument (`Value.AwaitsIn`) if
  and only if it obeys the discipline that asks this of builtins (`Value.obeysIn_awaiting_iff`).
* **The last case of `callBuiltin`**, for a number of arguments that the builtin does not run on, can be anything
  (`callBuiltinElse`): by the table of arities each builtin has a case for as many arguments as it runs on, and
  `applyStep` calls it with no other number. So an evaluator that does anything else there is the same (`trapped_eq`).

Hence **builtins stay partial** (`builtins_stay_partial`), where the builtins alone are bound, or nothing but values in
which builtins await arguments.
-/

namespace Treewalk

open Run

/-! ## What a value holds -/

section Holds

mutual

/-- The second value stands in the first, at any depth. -/
inductive Value.Holds (store : Store) : Value → Value → Prop
  | self (v : Value) : Value.Holds store v v
  | item {vs : List Value} {v w : Value} : v ∈ vs → Value.Holds store v w → Value.Holds store (.list vs) w
  | key {ps : List (Value × Value)} {p : Value × Value} {w : Value} : p ∈ ps → Value.Holds store p.1 w →
      Value.Holds store (.dict ps) w
  | stored {ps : List (Value × Value)} {p : Value × Value} {w : Value} : p ∈ ps → Value.Holds store p.2 w →
      Value.Holds store (.dict ps) w
  | captured {i : Nat} {self : Option String} {params : List String} {body : Expr} {r : Env} {name : String}
      {b : Binding} {w : Value} : List.lookup name r = some b → Binding.Holds store b w →
      Value.Holds store (.closure i self params body r) w
  | argument {f : Builtin} {vs : List Value} {v w : Value} : v ∈ vs → Value.Holds store v w →
      Value.Holds store (.primitive f vs) w

/-- The value stands in what a name is bound to. -/
inductive Binding.Holds (store : Store) : Binding → Value → Prop
  | value {v w : Value} : Value.Holds store v w → Binding.Holds store (.value v) w
  | captured {cell : Nat} {e : Expr} {r : Env} {name : String} {b : Binding} {w : Value} :
      List.lookup name r = some b → Binding.Holds store b w → Binding.Holds store (.thunk cell e r) w
  | memo {cell : Nat} {e : Expr} {r : Env} {v w : Value} : store.memo? cell = some v → Value.Holds store v w →
      Binding.Holds store (.thunk cell e r) w

end

/-- Every builtin in the value awaits at least one more argument. -/
def Value.AwaitsIn (store : Store) (v : Value) : Prop :=
  ∀ f args, v.Holds store (.primitive f args) → args.length < f.arity

/-- Every builtin in what a name is bound to awaits at least one more argument. -/
def Binding.AwaitsIn (store : Store) (b : Binding) : Prop :=
  ∀ f args, b.Holds store (.primitive f args) → args.length < f.arity

/-- Every builtin in the bindings of the environment awaits at least one more argument. -/
def Env.AwaitsIn (store : Store) (r : Env) : Prop :=
  ∀ name b, List.lookup name r = some b → b.AwaitsIn store

end Holds

/-! ## The discipline -/

section Awaiting

/-- A builtin has to await an argument, and nothing else is asked. -/
def awaiting : Discipline where
  lexical := False
  keys := .any
  awaits f n := n < f.arity
  awaits_of_lt h := h

variable {store : Store} {cells : Set Nat}

mutual

/-- What stands in a value that obeys, obeys. -/
theorem Value.Holds.obeys (hstore : store.Upholds awaiting cells) : ∀ {v w : Value}, v.Holds store w →
    v.Obeys awaiting cells → w.Obeys awaiting cells
  | _, _, .self _, h => h
  | _, _, .item hv hholds, .list hvs => hholds.obeys hstore (hvs _ hv)
  | _, _, .key hp hholds, .dict _ hkeys _ => hholds.obeys hstore (hkeys _ hp)
  | _, _, .stored hp hholds, .dict _ _ hvalues => hholds.obeys hstore (hvalues _ hp)
  | _, _, .captured hb hholds, .closure _ hr => hholds.obeys hstore (hr _ _ hb)
  | _, _, .argument hv hholds, .primitive _ hvs => hholds.obeys hstore (hvs _ hv)

theorem Binding.Holds.obeys (hstore : store.Upholds awaiting cells) : ∀ {b : Binding} {w : Value} {name : String},
    b.Holds store w → Binding.Obeys awaiting cells name b → w.Obeys awaiting cells
  | _, _, _, .value hholds, .value hv => hholds.obeys hstore hv
  | _, _, _, .captured hb hholds, .thunk _ _ hr => hholds.obeys hstore (hr _ _ hb)
  | _, _, _, .memo hmemo hholds, .thunk hcell _ _ => hholds.obeys hstore (hstore _ hcell _ hmemo)

end

/-- What is found under a name is the first binding, or is found among the others. -/
theorem Env.lookup_cons_cases {name bound : String} {b held : Binding} {r : Env}
    (h : List.lookup name ((bound, held) :: r) = some b) : b = held ∨ List.lookup name r = some b := by
  rw [List.lookup_cons] at h
  split at h
  · exact Or.inl (Option.some.inj h).symm
  · exact Or.inr h

/-- The cells whose values, if they have any, hold no builtin but such that await an argument. -/
def Store.awaitingCells (store : Store) : Set Nat :=
  { cell | ∀ v, store.memo? cell = some v → v.AwaitsIn store }

mutual

theorem Value.AwaitsIn.obeys : ∀ {v : Value}, v.AwaitsIn store → v.Obeys awaiting store.awaitingCells
  | .unit, _ => .unit
  | .int n, _ => .int n
  | .bool b, _ => .bool b
  | .str s, _ => .str s
  | .list vs, h => .list (Value.AwaitsIn.obeysAll vs fun _ hv f args hholds => h f args (.item hv hholds))
  | .dict ps, h =>
    have hps := Value.AwaitsIn.obeysPairs ps fun _ hp =>
      ⟨fun f args hholds => h f args (.key hp hholds), fun f args hholds => h f args (.stored hp hholds)⟩
    .dict trivial (fun p hp => (hps p hp).1) fun p hp => (hps p hp).2
  | .closure _ _ _ _ r, h =>
    .closure False.elim fun name _ hb => Env.obeys_of_awaitsIn r name hb fun f args hholds =>
      h f args (.captured hb hholds)
  | .primitive f vs, h =>
    .primitive (h f vs (.self _)) (Value.AwaitsIn.obeysAll vs fun _ hv g args hholds => h g args (.argument hv hholds))

theorem Value.AwaitsIn.obeysAll : ∀ vs : List Value, (∀ v ∈ vs, v.AwaitsIn store) →
    ∀ v ∈ vs, v.Obeys awaiting store.awaitingCells
  | [], _ => nofun
  | _ :: vs, h => List.forall_mem_cons.2
      ⟨Value.AwaitsIn.obeys (List.forall_mem_cons.1 h).1, Value.AwaitsIn.obeysAll vs (List.forall_mem_cons.1 h).2⟩

theorem Value.AwaitsIn.obeysPairs : ∀ ps : List (Value × Value),
    (∀ p ∈ ps, p.1.AwaitsIn store ∧ p.2.AwaitsIn store) →
    ∀ p ∈ ps, p.1.Obeys awaiting store.awaitingCells ∧ p.2.Obeys awaiting store.awaitingCells
  | [], _ => nofun
  | (_, _) :: ps, h => List.forall_mem_cons.2
      ⟨⟨Value.AwaitsIn.obeys (List.forall_mem_cons.1 h).1.1, Value.AwaitsIn.obeys (List.forall_mem_cons.1 h).1.2⟩,
        Value.AwaitsIn.obeysPairs ps (List.forall_mem_cons.1 h).2⟩

theorem Binding.AwaitsIn.obeys : ∀ (name : String) {b : Binding}, b.AwaitsIn store →
    Binding.Obeys awaiting store.awaitingCells name b
  | _, .value _, h => .value (Value.AwaitsIn.obeys fun f args hholds => h f args (.value hholds))
  | _, .thunk _ _ r, h =>
    -- the value in the cell of the thunk is held by the thunk, so the cell is among those that await
    .thunk (fun _ hmemo f args hholds => h f args (.memo hmemo hholds)) False.elim fun name _ hb =>
      Env.obeys_of_awaitsIn r name hb fun f args hholds => h f args (.captured hb hholds)

theorem Env.obeys_of_awaitsIn : ∀ (r : List (String × Binding)) (name : String) {b : Binding},
    List.lookup name r = some b → b.AwaitsIn store → Binding.Obeys awaiting store.awaitingCells name b
  | [], _, _, hb, _ => nomatch hb
  | (_, _) :: r, name, _, hb, h => by
    rcases Env.lookup_cons_cases hb with rfl | hb
    · exact Binding.AwaitsIn.obeys name h
    · exact Env.obeys_of_awaitsIn r name hb h

end

theorem Store.upholds_awaitingCells (store : Store) : store.Upholds awaiting store.awaitingCells :=
  fun _ hcell v hmemo => (hcell v hmemo).obeys

/-- A builtin that obeys awaits an argument. -/
theorem lt_arity_of_obeys {f : Builtin} {args : List Value} (h : (Value.primitive f args).Obeys awaiting cells) :
    args.length < f.arity := by
  cases h with
  | primitive hlt _ => exact hlt

/-- **The discipline is about the builtins that a value holds.** -/
theorem Value.obeysIn_awaiting_iff {v : Value} : v.ObeysIn awaiting store ↔ v.AwaitsIn store := by
  constructor
  · rintro ⟨cells, hstore, hv⟩ f args hholds
    exact lt_arity_of_obeys (hholds.obeys hstore hv)
  · exact fun h => ⟨_, store.upholds_awaitingCells, h.obeys⟩

theorem Env.obeysIn_awaiting_iff {r : Env} : Env.ObeysIn awaiting store r ↔ Env.AwaitsIn store r := by
  constructor
  · rintro ⟨cells, hstore, hr⟩ name b hb f args hholds
    exact lt_arity_of_obeys (hholds.obeys hstore (hr name b hb))
  · exact fun h => ⟨_, store.upholds_awaitingCells, fun name b hb => Env.obeys_of_awaitsIn r name hb (h name b hb)⟩

end Awaiting

/-! ## The table of builtins -/

section Table

namespace Interpreter

variable (otherwise : Builtin → List Value → Run Value) (I : Interpreter)

/-- A builtin on some arguments, with something else in the place of the refusal of their number. -/
def callBuiltinElse (builtin : Builtin) (args : List Value) (stack : CallStack) : Run Value :=
  match builtin, args with
  | .head, [list] => unary .head list
  | .tail, [list] => unary .tail list
  | .not, [v] => unary .not v
  | .length, [coll] => ofExcept coll.length
  | .cons, [v, list] => binary .cons v list
  | .delete, [key, dict] => binary .delete key dict
  | .hasKey, [key, dict] => binary .hasKey key dict
  | .getKey, [key, dict] => binary .getKey key dict
  | .insert, [key, value, dict] => insert key value dict
  | .map, [func, coll] => I.combine .map func coll stack
  | .fold, [func, coll] => I.combine .fold func coll stack
  | .filter, [func, coll] => I.combine .filter func coll stack
  | _, _ => otherwise builtin args

/-- Application with something else in the place of a builtin's refusal of the number of its arguments. -/
def applyElse (callee : Value) (args : List Value) (stack : CallStack) : Run Value :=
  match callee with
  | .primitive builtin collected =>
    let args := collected ++ args
    if builtin.arity < args.length then fail (.arityMismatch builtin.name builtin.arity args.length)
    else if args.length < builtin.arity then return .primitive builtin args
    else I.callBuiltinElse otherwise builtin args stack
  | callee => I.applyStep callee args stack

variable {otherwise I} {builtin : Builtin} {args : List Value} {stack : CallStack}

/-- With the refusal in its place, this is the call of a builtin. -/
theorem callBuiltinElse_refusal : I.callBuiltinElse
    (fun builtin args => fail (.arityMismatch builtin.name builtin.arity args.length)) builtin args stack =
      I.callBuiltin builtin args stack := rfl

/-- **The last case is reached with a wrong number of arguments only.** By the table of arities each builtin has a case
of its own for as many arguments as it runs on. -/
theorem callBuiltinElse_eq : I.callBuiltinElse otherwise builtin args stack =
    if args.length = builtin.arity then I.callBuiltin builtin args stack else otherwise builtin args := by
  by_cases h : args.length = builtin.arity
  · rw [if_pos h]
    cases builtin with
    | head | tail | length | not =>
      obtain ⟨v, rfl⟩ := List.length_eq_one_iff.1 h
      rfl
    | cons | delete | hasKey | getKey | map | fold | filter =>
      obtain ⟨v, w, rfl⟩ := List.length_eq_two.1 h
      rfl
    | insert =>
      obtain ⟨key, value, dict, rfl⟩ := List.length_eq_three.1 h
      rfl
  · rw [if_neg h]
    unfold callBuiltinElse
    split
    case h_13 => rfl
    all_goals exact absurd rfl h

/-- Application calls a builtin with neither more arguments nor fewer. -/
theorem applyElse_eq (callee : Value) : I.applyElse otherwise callee args stack = I.applyStep callee args stack := by
  cases callee with
  | primitive builtin collected =>
    simp only [applyElse, applyStep]
    split
    · rfl
    · next hmany =>
      split
      · rfl
      · next hfew =>
        have hfull : (collected ++ args).length = builtin.arity := by omega
        rw [callBuiltinElse_eq, if_pos hfull]
  | _ => rfl

end Interpreter

/-- The evaluator with the given fuel that does something else when a builtin is called with a wrong number of
arguments. -/
def trapped (otherwise : Builtin → List Value → Run Value) (config : Config) : Nat → Interpreter
  | 0 => interpreter config 0
  | n + 1 => { (trapped otherwise config n).next config with apply := (trapped otherwise config n).applyElse otherwise }

/-- **No builtin is ever called with a wrong number of arguments**, so it does not matter what would happen then. -/
theorem trapped_eq (otherwise : Builtin → List Value → Run Value) (config : Config) (n : Nat) :
    trapped otherwise config n = interpreter config n := by
  induction n with
  | zero => rfl
  | succ n ih =>
    rw [trapped, ih, interpreter_succ]
    congr 1
    funext callee args stack
    exact Interpreter.applyElse_eq callee

end Table

/-! ## Evaluation -/

section Main

/-- **Builtins stay partial**: no value that an evaluation handles holds a builtin with all its arguments, and a builtin
is never called with a number of arguments that it does not run on. -/
theorem builtins_stay_partial (config : Config) (e : Expr) {env : Env} (stack : CallStack) {store : Store}
    (henv : env = Env.withBuiltins ∨ Env.AwaitsIn store env) :
    (∀ v after, Evaluates config e env stack store (.done v after) → v.AwaitsIn after) ∧
      (∀ outcome after, Evaluates config e env stack store outcome → outcome.store? = some after →
        ∀ cell v, store.memo? cell = none → after.memo? cell = some v → v.AwaitsIn after) ∧
      (∀ alarm n, (watched awaiting alarm config n).eval e env stack store = eval config n e env stack store) ∧
      ∀ otherwise n, trapped otherwise config n = interpreter config n := by
  have hobeys : Env.ObeysIn awaiting store env := by
    rcases henv with rfl | henv
    · exact Env.obeysIn_withBuiltins awaiting store
    · exact Env.obeysIn_awaiting_iff.2 henv
  obtain ⟨hwatched, _, hvalue, hcells⟩ := awaiting.kept config stack hobeys False.elim
  refine ⟨fun v after h => Value.obeysIn_awaiting_iff.1 (hvalue v after h), ?_, hwatched,
    fun otherwise n => trapped_eq otherwise config n⟩
  intro outcome after h hafter cell v hnone hsome
  exact Value.obeysIn_awaiting_iff.1 (hcells outcome after h hafter cell v hnone hsome)

/-- A function reaches a memo cell that keeps a builtin with one of its three arguments, beside the same builtin with
two of them. -/
theorem builtins_stay_partial_insert :
    let e : Expr := .letIn (.lazy [("put", .apply (.symbol "insert") [.integer 1])])
      (.list [.apply (.symbol "put") [.integer 2], .lambda ["x"] (.symbol "put")])
    ∃ v after, Evaluates ⟨none, .byNeed⟩ e Env.withBuiltins CallStack.empty {} (.done v after) ∧
      v.Holds after (.primitive .insert [.int 1, .int 2]) ∧ v.Holds after (.primitive .insert [.int 1]) ∧
      v.AwaitsIn after := by
  intro e
  let put : Binding := .thunk 0 (.apply (.symbol "insert") [.integer 1]) Env.withBuiltins
  let v : Value := .list [.primitive .insert [.int 1, .int 2],
    .closure 0 none ["x"] (.symbol "put") (Env.withBuiltins.extend "put" put)]
  let after : Store := { cells := #[some (.primitive .insert [.int 1])], nextId := 1 }
  have h : Evaluates ⟨none, .byNeed⟩ e Env.withBuiltins CallStack.empty {} (.done v after) :=
    ⟨Outcome.done_ne_outOfFuel v after, 6, rfl⟩
  have hput : put.Holds after (.primitive .insert [.int 1]) := .memo rfl (.self _)
  refine ⟨v, after, h, .item List.mem_cons_self (.self _), ?_, (builtins_stay_partial _ _ _ (Or.inl rfl)).1 v after h⟩
  have hlookup : List.lookup "put" (Env.withBuiltins.extend "put" put) = some put := rfl
  exact .item (List.mem_cons_of_mem _ List.mem_cons_self) (.captured hlookup hput)

end Main

end Treewalk
