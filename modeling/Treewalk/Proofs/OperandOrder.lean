import Treewalk.Proofs.BatchOrder
import Treewalk.Proofs.Level
import Treewalk.Proofs.Sequences

/-!
# The operands of a combinator in either order

A combinator takes the collection first and the function second, and the builtin of its name takes the function first
(`endsIn_combine`, `endsIn_apply`). Without a limit, and where both operands have values, this makes no difference
(`endAlike_operands`): the values are equal up to a one-to-one renaming, or the failures have one cause, or there is no
end (`EndAlike`).

* A combinator ends alike from level stores (`Level.combine`), so by name it is enough that the operands leave level
  stores in either order (`endAlike_byName`).
* By need, an operand fills memo cells that the other one looks at. Both operands are deferred then: a combinator of two
  names that are bound to them (`deferred`) stays level with the combinator, and after the function has been looked up
  once, with the builtin. What has been looked up only warms the store (`endAlike_byNeed`).
-/

namespace Treewalk

open Run

/-! ## Alike -/

section Alike

/-- Two ways to end are alike, as far as the marks of the set go: with values that are equal up to a one-to-one renaming
that changes none of them, with failures of one cause, or not at all. -/
def EndAlike (D : Set Mark) (first second : Outcome Value → Prop) : Prop :=
  (∃ (v v' : Value) (σ τ : Store) (ρ : Renaming), first (.done v σ) ∧ second (.done v' τ) ∧ ρ.OneToOne ∧
    (∀ m ∈ D, ρ m m) ∧ v.Renamed ρ v') ∨
  (∃ cause σ τ, first (.failed ⟨cause, none⟩ σ) ∧ second (.failed ⟨cause, none⟩ τ)) ∨
  ∀ o, ¬first o ∧ ¬second o

variable {D D' : Set Mark} {first second third : Outcome Value → Prop}

theorem EndAlike.mono (h : EndAlike D first second) (hD : D' ⊆ D) : EndAlike D' first second := by
  rcases h with ⟨v, v', σ, τ, ρ, hfirst, hsecond, hone, hfixes, hv⟩ | h
  · exact Or.inl ⟨v, v', σ, τ, ρ, hfirst, hsecond, hone, fun m hm => hfixes m (hD hm), hv⟩
  · exact Or.inr h

theorem Renaming.OneToOne.flip {ρ : Renaming} (h : ρ.OneToOne) : Renaming.OneToOne (flip ρ) :=
  fun _ _ _ _ hm hn hnumber => (h hm hn hnumber.symm).symm

theorem EndAlike.symm (h : EndAlike D first second) : EndAlike D second first := by
  rcases h with ⟨v, v', σ, τ, ρ, hfirst, hsecond, hone, hfixes, hv⟩ | ⟨cause, σ, τ, hfirst, hsecond⟩ | h
  · exact Or.inl ⟨v', v, τ, σ, flip ρ, hsecond, hfirst, hone.flip, hfixes, hv.symm⟩
  · exact Or.inr (Or.inl ⟨cause, τ, σ, hsecond, hfirst⟩)
  · exact Or.inr (Or.inr fun o => (h o).symm)

/-- Through something that ends in one way only. -/
theorem EndAlike.trans (hunique : ∀ {o o'}, second o → second o' → o = o') (h : EndAlike D first second)
    (h' : EndAlike D second third) : EndAlike D first third := by
  rcases h with ⟨v, v', σ, τ, ρ, hfirst, hsecond, hone, hfixes, hv⟩ | ⟨cause, σ, τ, hfirst, hsecond⟩ | h
  · rcases h' with ⟨u, u', _, τ', ρ', hsecond', hthird, hone', hfixes', hu⟩ | ⟨cause, _, τ', hsecond', _⟩ | h'
    · cases hunique hsecond hsecond'
      exact Or.inl ⟨v, u', σ, τ', ρ.comp ρ', hfirst, hthird, hone.comp hone',
        fun m hm => ⟨m, hfixes m hm, hfixes' m hm⟩, hv.comp hu⟩
    · cases hunique hsecond hsecond'
    · exact absurd hsecond (h' _).1
  · rcases h' with ⟨u, u', _, τ', ρ', hsecond', _⟩ | ⟨cause', _, τ', hsecond', hthird⟩ | h'
    · cases hunique hsecond hsecond'
    · cases hunique hsecond hsecond'
      exact Or.inr (Or.inl ⟨cause, σ, τ', hfirst, hthird⟩)
    · exact absurd hsecond (h' _).1
  · rcases h' with ⟨u, u', σ, _, _, hsecond, _⟩ | ⟨cause, σ, _, hsecond, _⟩ | h'
    · exact absurd hsecond (h _).2
    · exact absurd hsecond (h _).2
    · exact Or.inr (Or.inr fun o => ⟨(h o).1, (h' o).2⟩)

/-- From a warmer store an expression ends alike. -/
theorem Warms.endAlike {strategy : Strategy} {σ τ : Store} (h : Warms strategy D σ τ) {e : Expr} {r : Env}
    (hr : ∀ m ∈ Env.marks r, m ∈ D) (s : CallStack) :
    EndAlike D (EndsIn strategy e r s σ) (EndsIn strategy e r s τ) := by
  by_cases hends : ∃ outcome, Evaluates ⟨none, strategy⟩ e r s σ outcome
  · obtain ⟨outcome, heval⟩ := hends
    cases outcome with
    | outOfFuel => exact absurd rfl heval.1
    | done v σ' =>
      obtain ⟨ρ, v', τ', heval', hmeets, hv⟩ := h.done hr heval
      exact Or.inl ⟨v, v', σ', τ', ρ, ⟨_, heval, rfl⟩, ⟨_, heval', rfl⟩, hmeets.oneToOne, hmeets.fixes, hv⟩
    | failed failure σ' =>
      obtain ⟨τ', heval'⟩ := h.failed hr (fun _ => heval.not_fatal) heval
      exact Or.inr (Or.inl ⟨failure.cause, σ', τ', ⟨_, heval, rfl⟩, ⟨_, heval', rfl⟩⟩)
  · refine Or.inr (Or.inr fun o => ⟨fun ⟨outcome, heval, _⟩ => hends ⟨outcome, heval⟩, fun ⟨_, heval, _⟩ => ?_⟩)
    exact hends (h.ends hr heval)

end Alike

/-! ## Combinators -/

section Combinators

variable {strategy : Strategy} {op : Combinator} {c f : Expr} {env : Env} {s : CallStack} {σ : Store}
  {coll func : Value} {o : Outcome Value}

/-- The builtin that a combinator is also. -/
def Combinator.builtin : Combinator → Builtin
  | .map => .map
  | .fold => .fold
  | .filter => .filter

/-- Without a limit, a combinator ends in an outcome, but for the backtrace. -/
def Combines (strategy : Strategy) (op : Combinator) (func coll : Value) (s : CallStack) (σ : Store)
    (o : Outcome Value) : Prop :=
  Concludes (fun n s => (unlimited strategy n).combine op func coll s) s σ o

theorem stable_combine (strategy : Strategy) (op : Combinator) (func coll : Value) :
    Stable fun n s => (unlimited strategy n).combine op func coll s := by
  intro n k hnk s t
  have hP := compositional_leadsTo strategy
  exact hP.combine (fun i => unlimited strategy (cond i k n)) (fun i => cond i t s) op func
    fun before v _ => stable_apply strategy func (before ++ [v]) hnk s t

/-- Where the first part has a value, what comes next decides. -/
theorem then_iff_of_done {α β : Type} {first : Outcome α → Prop} {next : α → Store → Outcome β → Prop} {a : α}
    {o : Outcome β} (hunique : ∀ {o o'}, first o → first o' → o = o') (h : first (.done a σ)) :
    Then first next o ↔ next a σ o := by
  constructor
  · rintro (⟨a', σ', h', hnext⟩ | ⟨cause, σ', h', _⟩)
    · cases hunique h h'
      exact hnext
    · cases hunique h h'
  · exact fun hnext => Or.inl ⟨a, σ, h, hnext⟩

/-- A combinator takes the collection first. -/
theorem endsIn_combine : EndsIn strategy (.combine op c f) env s σ o ↔
    Then (EndsIn strategy c env s σ) (fun coll σ' =>
      Then (EndsIn strategy f env s σ') fun func σ'' => Combines strategy op func coll s σ'') o := by
  have hc := stable_eval strategy c env
  have hf := stable_eval strategy f env
  have hcombine := fun coll func => stable_combine strategy op func coll
  rw [endsIn_iff_step (hc.bind fun coll => hf.bind (hcombine coll)) fun _ _ => rfl,
    concludes_bind hc fun coll => hf.bind (hcombine coll)]
  simp only [endsIn_iff_concludes, concludes_bind hf (hcombine _), Combines, Then]

theorem apply_combinator (n : Nat) :
    apply ⟨none, strategy⟩ (n + 1) (.primitive op.builtin []) [func, coll] s σ =
      (unlimited strategy n).combine op func coll s σ := by
  cases op <;> rfl

/-- A builtin takes one unit of fuel more. -/
theorem concludes_apply_combinator :
    Concludes (apply ⟨none, strategy⟩ · (.primitive op.builtin []) [func, coll]) s σ o ↔
      Combines strategy op func coll s σ o := by
  constructor
  · rintro ⟨ho, n, rfl⟩
    cases n with
    | zero => exact absurd rfl ho
    | succ n => exact ⟨ho, n, congrArg Outcome.bare (apply_combinator n).symm⟩
  · rintro ⟨ho, n, rfl⟩
    exact ⟨ho, n + 1, congrArg Outcome.bare (apply_combinator n)⟩

/-- Where the stack has room, a name has its value. -/
theorem eval_symbol_of_room {config : Config} {t : CallStack} {name : String} {v : Value}
    (hname : env.lookup? name = some (.value v)) (hroom : s.pushWithin config.maxDepth (.symbol name) = .ok t)
    (n : Nat) : eval config (n + 1) (.symbol name) env s = pure v := by
  rw [eval_succ]
  simp only [Run.inFrame, hroom, Interpreter.evalStep, Interpreter.lookup, hname]
  rfl

theorem endsIn_symbol {name : String} {v : Value} (hname : env.lookup? name = some (.value v)) :
    EndsIn strategy (.symbol name) env s σ (.done v σ) :=
  ⟨.done v σ, ⟨nofun, 1, congrFun (eval_symbol_of_room hname (s.pushWithin_none _) 0) σ⟩, rfl⟩

/-- The builtin takes the function first, after its own name. -/
theorem endsIn_apply (hname : env.lookup? op.builtin.name = some (.value (.primitive op.builtin []))) :
    EndsIn strategy (.apply (.symbol op.builtin.name) [f, c]) env s σ o ↔
    Then (EndsIn strategy f env s σ) (fun func σ' =>
      Then (EndsIn strategy c env s σ') fun coll σ'' => Combines strategy op func coll s σ'') o := by
  have hsymbol := stable_eval strategy (.symbol op.builtin.name) env
  have hf := stable_eval strategy f env
  have hc := stable_eval strategy c env
  have happly := fun callee func coll => stable_apply strategy callee [func, coll]
  have hstep : ∀ n s, (unlimited strategy n).evalStep ⟨none, strategy⟩ (.apply (.symbol op.builtin.name) [f, c]) env s =
      eval ⟨none, strategy⟩ n (.symbol op.builtin.name) env s >>= fun callee =>
        eval ⟨none, strategy⟩ n f env s >>= fun func => eval ⟨none, strategy⟩ n c env s >>= fun coll =>
          apply ⟨none, strategy⟩ n callee [func, coll] s := by
    intro n s
    simp only [Interpreter.evalStep, List.mapM_cons, List.mapM_nil, bind_assoc, pure_bind]
    rfl
  rw [endsIn_iff_step (hsymbol.bind fun callee => hf.bind fun func => hc.bind (happly callee func)) hstep,
    concludes_bind hsymbol fun callee => hf.bind fun func => hc.bind (happly callee func),
    then_iff_of_done (fun h h' => (endsIn_iff_concludes.2 h).unique (endsIn_iff_concludes.2 h'))
      (endsIn_iff_concludes.1 (endsIn_symbol hname)),
    concludes_bind hf fun func => hc.bind (happly _ func)]
  simp only [endsIn_iff_concludes, concludes_bind hc (happly _ _), concludes_apply_combinator, Then]

/-- Where both operands have values. -/
theorem endsIn_combine_of_done {σ' σ'' : Store} (hc : EndsIn strategy c env s σ (.done coll σ'))
    (hf : EndsIn strategy f env s σ' (.done func σ'')) :
    EndsIn strategy (.combine op c f) env s σ = Combines strategy op func coll s σ'' := by
  funext o
  rw [eq_iff_iff, endsIn_combine, then_iff_of_done EndsIn.unique hc, then_iff_of_done EndsIn.unique hf]

theorem endsIn_apply_of_done {σ' σ'' : Store}
    (hname : env.lookup? op.builtin.name = some (.value (.primitive op.builtin [])))
    (hf : EndsIn strategy f env s σ (.done func σ')) (hc : EndsIn strategy c env s σ' (.done coll σ'')) :
    EndsIn strategy (.apply (.symbol op.builtin.name) [f, c]) env s σ = Combines strategy op func coll s σ'' := by
  funext o
  rw [eq_iff_iff, endsIn_apply hname, then_iff_of_done EndsIn.unique hf, then_iff_of_done EndsIn.unique hc]

/-- How a run that ends is followed, if no failure is pardoned. -/
theorem Tracking.follows_cases {W : Type} [Preorder W] {T : Tracking W} {w : W} {R : W → Value → Value → Prop}
    {outcome : Outcome Value} {outcomes : Nat → Outcome Value} (h : T.simulation.Follows w R outcome outcomes)
    (hends : outcome.bare ≠ .outOfFuel) (hstrict : ∀ failure, ¬T.pardons failure) :
    (∃ w' v v' σ τ, outcome = .done v σ ∧ w ≤ w' ∧ R w' v v' ∧ ∃ k, outcomes k = .done v' τ) ∨
      ∃ failure σ τ, outcome = .failed failure σ ∧ ∃ k, outcomes k = .failed failure τ := by
  cases outcome with
  | outOfFuel => exact absurd rfl hends
  | done v σ =>
    obtain ⟨w', v', τ, hw, hv, -, hdone⟩ := Tracking.exists_done h
    exact Or.inl ⟨w', v, v', σ, τ, rfl, hw, hv, hdone.exists⟩
  | failed failure σ =>
    obtain ⟨_, τ, _, -, hfailed⟩ := Tracking.exists_failed h (hstrict failure)
    exact Or.inr ⟨failure, σ, τ, rfl, hfailed.exists⟩

/-- **From level stores a combinator ends alike.** Each side follows the other one. -/
theorem Level.combine {D : Set Mark} {ρ : Renaming} {τ : Store} {func' coll' : Value} (h : Level ρ σ τ)
    (hfixes : ∀ m ∈ D, ρ m m) (hfunc : func.Renamed ρ func') (hcoll : coll.Renamed ρ coll') :
    EndAlike D (Combines strategy op func coll s σ) (Combines strategy op func' coll' s τ) := by
  let d := Departure.between strategy ρ σ τ
  have hstart : d.Abreast h.stage σ τ := h.abreast strategy
  by_cases hends : ∃ o, Combines strategy op func coll s σ o
  · obtain ⟨_, ho, n, rfl⟩ := hends
    have hfollows := Simulation.combine (interprets_of_no_exempt (d := d) rfl none n) (rfl : s = s) (w := h.stage) op
      hfunc hcoll σ τ hstart
    obtain ⟨w, v, v', σ', τ', hn, hw, hv, k, hk⟩ | ⟨failure, σ', τ', hn, k, hk⟩ :=
      Tracking.follows_cases hfollows ho fun _ hpardon => hpardon.1
    · exact Or.inl ⟨v, v', σ', τ', w.marks, ⟨nofun, n, congrArg Outcome.bare hn⟩,
        ⟨nofun, k, congrArg Outcome.bare hk⟩, w.oneToOne, fun m hm => hw.1 m m (hfixes m hm), hv⟩
    · exact Or.inr (Or.inl ⟨failure.cause, σ', τ', ⟨nofun, n, congrArg Outcome.bare hn⟩,
        ⟨nofun, k, congrArg Outcome.bare hk⟩⟩)
  · refine Or.inr (Or.inr fun o => ⟨fun hcombines => hends ⟨o, hcombines⟩, fun ⟨ho, n, hn⟩ => hends ?_⟩)
    subst hn
    have hfollows := Simulation.combine (interprets_flip_of_no_exempt (d := d) rfl none n) (rfl : s = s) (w := h.stage)
      op hfunc.symm hcoll.symm τ σ hstart
    obtain ⟨_, _, v, _, σ', _, _, _, k, hk⟩ | ⟨failure, _, σ', _, k, hk⟩ :=
      Tracking.follows_cases hfollows ho fun _ => id
    · exact ⟨.done v σ', nofun, k, congrArg Outcome.bare hk⟩
    · exact ⟨.failed ⟨failure.cause, none⟩ σ', nofun, k, congrArg Outcome.bare hk⟩

end Combinators

/-! ## By name -/

section ByName

variable {op : Combinator} {c f : Expr} {env : Env} {s : CallStack} {D : Set Mark} {σ σc σf : Store}
  {coll func : Value}

theorem Evaluates.grows {config : Config} {e : Expr} {v : Value} {σ' : Store}
    (h : Evaluates config e env s σ (.done v σ')) : σ.GrowsTo config.strategy σ' := by
  obtain ⟨-, n, hn⟩ := h
  exact (grows_eval_apply config n).1 e env s σ σ' (congrArg Outcome.store? hn)

/-- By name, either order leaves level stores. -/
theorem endAlike_byName (hσ : σ.Coherent D) (henv : ∀ m ∈ Env.marks env, m ∈ D)
    (hname : env.lookup? op.builtin.name = some (.value (.primitive op.builtin [])))
    (hc : Evaluates ⟨none, .byName⟩ c env s σ (.done coll σc))
    (hf : Evaluates ⟨none, .byName⟩ f env s σ (.done func σf)) :
    EndAlike D (EndsIn .byName (.combine op c f) env s σ)
      (EndsIn .byName (.apply (.symbol op.builtin.name) [f, c]) env s σ) := by
  have hr : Env.Renamed (Renaming.on D) env env := Env.renamed_on_iff.2 henv
  have hlevel : ∀ {e : Expr} {v : Value} {σ' : Store}, Evaluates ⟨none, .byName⟩ e env s σ (.done v σ') →
      Level (Renaming.on D) σ σ' :=
    fun h => (hσ.level h.grows (h.grows.byName rfl)).level rfl
  obtain ⟨wc, coll', σfc, hc', hcoll, hcAbreast⟩ := (hlevel hf).evaluates hr hc
  obtain ⟨wf, func', σcf, hf', hfunc, hfAbreast⟩ := (hlevel hc).evaluates hr hf
  rw [endsIn_combine_of_done ⟨_, hc, rfl⟩ ⟨_, hf', rfl⟩, endsIn_apply_of_done hname ⟨_, hf, rfl⟩ ⟨_, hc', rfl⟩]
  exact (Level.of_crossing hσ hcAbreast hfAbreast).combine
    (fun m hm => Or.inl (hcAbreast.start m m ⟨rfl, hm⟩)) (hfunc.symm.mono fun _ _ => Or.inr)
    (hcoll.mono fun _ _ => Or.inl)

end ByName

/-! ## By need -/

section ByNeed

variable {op : Combinator} {c f : Expr} {env : Env} {s : CallStack} {D : Set Mark} {σ σc σf : Store}
  {coll func : Value}

/-- A store with two more memo cells. -/
def Store.reserve (σ : Store) : Store :=
  { σ with cells := (σ.cells.push none).push none }

/-- Two names that are bound to deferred operands. -/
def deferred (cell : Nat) (c f : Expr) (env : Env) : Env :=
  [("coll", .thunk cell c env), ("func", .thunk (cell + 1) f env)]

/-- The marks with those of the deferred operands. -/
def deferredMarks (cell : Nat) (c f : Expr) (env : Env) (D : Set Mark) : Set Mark :=
  insert (.thunk (cell + 1, f, env)) (insert (.thunk (cell, c, env)) D)

theorem Store.memo?_reserve (σ : Store) (cell : Nat) : σ.reserve.memo? cell = σ.memo? cell := by
  rw [Store.reserve, Store.memo?_push { σ with cells := σ.cells.push none }, Store.memo?_push]

theorem Store.GrowsTo.reserve (strategy : Strategy) (σ : Store) : σ.GrowsTo strategy σ.reserve :=
  (Store.GrowsTo.push strategy σ).trans (.push strategy _)

theorem coherent_reserve (h : σ.Coherent D) (c f : Expr) (env : Env) :
    σ.reserve.Coherent (deferredMarks σ.cells.size c f env D) := by
  let σ' : Store := { σ with cells := σ.cells.push none }
  have hfirst : σ'.Coherent (insert (.thunk (σ.cells.size, c, env)) D) :=
    h.insert (.push .byNeed σ) σ.memo?_push (lt_irrefl _) (by simp [σ', Store.Has])
  exact hfirst.insert (.push .byNeed σ') σ'.memo?_push (by simp [σ', Store.Has])
    (by simp [Store.reserve, Store.Has])

theorem level_reserve (h : σ.Coherent D) : Level (Renaming.on D) σ σ.reserve :=
  (h.level (.reserve .byNeed σ) σ.memo?_reserve).level rfl

/-- The new cells are spare. -/
theorem spare_reserve (h : σ.Coherent D) {cell : Nat} (hle : σ.cells.size ≤ cell)
    (hlt : cell < σ.reserve.cells.size) : Spare (Renaming.on D) σ.reserve cell where
  lt := hlt
  empty := by
    rw [Store.memo?_reserve, Store.memo?, Array.getElem?_eq_none hle]
    rfl
  unmarked := by
    rintro _ t ⟨rfl, ht⟩ rfl
    exact absurd (h.has _ ht) (Nat.not_lt.2 hle)

theorem spare_coll (h : σ.Coherent D) : Spare (Renaming.on D) σ.reserve σ.cells.size :=
  spare_reserve h le_rfl (by simp [Store.reserve])

theorem spare_func (h : σ.Coherent D) : Spare (Renaming.on D) σ.reserve (σ.cells.size + 1) :=
  spare_reserve h (Nat.le_succ _) (by simp [Store.reserve])

theorem lookup?_coll (c f : Expr) (env : Env) (cell : Nat) :
    (deferred cell c f env).lookup? "coll" = some (.thunk cell c env) :=
  rfl

theorem lookup?_func (c f : Expr) (env : Env) (cell : Nat) :
    (deferred cell c f env).lookup? "func" = some (.thunk (cell + 1) f env) :=
  rfl

theorem marks_deferred (henv : ∀ m ∈ Env.marks env, m ∈ D) (cell : Nat) (c f : Expr) :
    ∀ m ∈ Env.marks (deferred cell c f env), m ∈ deferredMarks cell c f env D := by
  intro m hm
  simp only [deferred, Env.marks, Binding.marks, List.append_nil, List.mem_append, List.mem_cons] at hm
  rcases hm with (rfl | hm) | (rfl | hm)
  · exact Or.inr (Or.inl rfl)
  · exact Or.inr (Or.inr (henv m hm))
  · exact Or.inl rfl
  · exact Or.inr (Or.inr (henv m hm))

/-- Two deferred expressions are looked up, one after the other. -/
theorem Level.force_both {ρ : Renaming} {τ σ' σ'' : Store} {r r' : Env} {t u : Thunk} {name name' : String}
    {v v' : Value} (h : Level ρ σ τ) (ht : Spare ρ τ t.1) (hu : Spare ρ τ u.1) (hne : t.1 ≠ u.1)
    (hname : env.lookup? name = some (.thunk t.1 t.2.1 t.2.2))
    (hname' : env.lookup? name' = some (.thunk u.1 u.2.1 u.2.2)) (hr : Env.Renamed ρ r t.2.2)
    (hr' : Env.Renamed ρ r' u.2.2) (heval : Evaluates ⟨none, .byNeed⟩ t.2.1 r s σ (.done v σ'))
    (heval' : Evaluates ⟨none, .byNeed⟩ u.2.1 r' s σ' (.done v' σ'')) :
    ∃ (ρ' : Renaming) (a a' : Value) (τ' τ'' : Store), ρ ≤ ρ' ∧
      Evaluates ⟨none, .byNeed⟩ (.symbol name) env s τ (.done a τ') ∧
      Evaluates ⟨none, .byNeed⟩ (.symbol name') env s τ' (.done a' τ'') ∧
      Level ρ' σ'' τ'' ∧ v.Renamed ρ' a ∧ v'.Renamed ρ' a' ∧ τ''.memo? t.1 = some a := by
  obtain ⟨ρ₁, a, τ', hρ, hfirst, hlevel, hv, hheld, hspare⟩ := h.force ht hname hr heval
  obtain ⟨ρ₂, a', τ'', hρ', hsecond, hlevel', hv', -, -⟩ :=
    hlevel.force (hspare _ hne hu) hname' (hr'.mono hρ) heval'
  exact ⟨ρ₂, a, a', τ', τ'', hρ.trans hρ', hfirst, hsecond, hlevel', hv.mono hρ', hv', hsecond.grows.filled hheld⟩

/-- The combinator of the names of the deferred operands. -/
def Combinator.ofNames (op : Combinator) : Expr :=
  .combine op (.symbol "coll") (.symbol "func")

variable (hσ : σ.Coherent D) (henv : ∀ m ∈ Env.marks env, m ∈ D)
include hσ henv

/-- The combinator stays level with the one of the deferred operands. -/
theorem endAlike_deferred {σcf : Store} (hc : Evaluates ⟨none, .byNeed⟩ c env s σ (.done coll σc))
    (hf : Evaluates ⟨none, .byNeed⟩ f env s σc (.done func σcf)) :
    EndAlike D (EndsIn .byNeed (.combine op c f) env s σ)
      (EndsIn .byNeed op.ofNames (deferred σ.cells.size c f env) s σ.reserve) := by
  have hr : Env.Renamed (Renaming.on D) env env := Env.renamed_on_iff.2 henv
  obtain ⟨ρ, coll', func', τ, τ', hρ, hcoll, hfunc, hlevel, hc', hf', -⟩ :=
    (level_reserve hσ).force_both (t := (σ.cells.size, c, env)) (u := (σ.cells.size + 1, f, env)) (spare_coll hσ)
      (spare_func hσ) (Nat.succ_ne_self _).symm (lookup?_coll c f env _) (lookup?_func c f env _) hr hr hc hf
  rw [Combinator.ofNames, endsIn_combine_of_done ⟨_, hc, rfl⟩ ⟨_, hf, rfl⟩,
    endsIn_combine_of_done ⟨_, hcoll, rfl⟩ ⟨_, hfunc, rfl⟩]
  exact hlevel.combine (fun m hm => hρ m m ⟨rfl, hm⟩) hf' hc'

/-- And so does the builtin, once the function has been looked up. -/
theorem endAlike_looked_up {σfc : Store}
    (hname : env.lookup? op.builtin.name = some (.value (.primitive op.builtin [])))
    (hf : Evaluates ⟨none, .byNeed⟩ f env s σ (.done func σf))
    (hc : Evaluates ⟨none, .byNeed⟩ c env s σf (.done coll σfc)) :
    ∃ v τ, Evaluates ⟨none, .byNeed⟩ (.symbol "func") (deferred σ.cells.size c f env) s σ.reserve (.done v τ) ∧
      EndAlike D (EndsIn .byNeed (.apply (.symbol op.builtin.name) [f, c]) env s σ)
        (EndsIn .byNeed op.ofNames (deferred σ.cells.size c f env) s τ) := by
  have hr : Env.Renamed (Renaming.on D) env env := Env.renamed_on_iff.2 henv
  obtain ⟨ρ, func', coll', τ, τ', hρ, hfunc, hcoll, hlevel, hf', hc', hheld⟩ :=
    (level_reserve hσ).force_both (t := (σ.cells.size + 1, f, env)) (u := (σ.cells.size, c, env)) (spare_func hσ)
      (spare_coll hσ) (Nat.succ_ne_self _) (lookup?_func c f env _) (lookup?_coll c f env _) hr hr hf hc
  have hagain := Evaluates.symbol_of_some (t := (σ.cells.size + 1, f, env)) (lookup?_func c f env _) hheld s
  refine ⟨func', τ, hfunc, ?_⟩
  rw [Combinator.ofNames, endsIn_apply_of_done hname ⟨_, hf, rfl⟩ ⟨_, hc, rfl⟩,
    endsIn_combine_of_done ⟨_, hcoll, rfl⟩ ⟨_, hagain, rfl⟩]
  exact hlevel.combine (fun m hm => hρ m m ⟨rfl, hm⟩) hf' hc'

/-- By need, through the deferred operands. -/
theorem endAlike_byNeed (hname : env.lookup? op.builtin.name = some (.value (.primitive op.builtin [])))
    (hc : Evaluates ⟨none, .byNeed⟩ c env s σ (.done coll σc))
    (hf : Evaluates ⟨none, .byNeed⟩ f env s σ (.done func σf)) :
    EndAlike D (EndsIn .byNeed (.combine op c f) env s σ)
      (EndsIn .byNeed (.apply (.symbol op.builtin.name) [f, c]) env s σ) := by
  -- each operand has a value after the other one, too
  obtain ⟨_, hafter⟩ := (hσ.settled .byNeed).evaluates henv hc rfl
  obtain ⟨_, func', σcf, hf', _⟩ := hafter.warms.done henv hf
  obtain ⟨_, hafter'⟩ := (hσ.settled .byNeed).evaluates henv hf rfl
  obtain ⟨_, coll', σfc, hc', _⟩ := hafter'.warms.done henv hc
  obtain ⟨v, τ, hfunc, hbuiltin⟩ := endAlike_looked_up hσ henv hname hf hc'
  -- looking up the function warms the store for the combinator of the deferred operands
  have hmarks := marks_deferred henv σ.cells.size c f
  obtain ⟨_, hwarm⟩ := ((coherent_reserve hσ c f env).settled .byNeed).evaluates hmarks hfunc rfl
  have hwarms := (hwarm.warms.endAlike hmarks s (e := op.ofNames)).mono fun m (hm : m ∈ D) => Or.inr (Or.inr hm)
  exact ((endAlike_deferred hσ henv hc hf').trans EndsIn.unique hwarms).trans EndsIn.unique hbuiltin.symm

end ByNeed

/-! ## Either way -/

section Main

/-- **A combinator and the builtin of its name end alike where both operands have values**, though they take them in
different orders. -/
theorem endAlike_operands {strategy : Strategy} {op : Combinator} {c f : Expr} {env : Env} {s : CallStack}
    {D : Set Mark} {σ σc σf : Store} {coll func : Value} (hσ : σ.Coherent D) (henv : ∀ m ∈ Env.marks env, m ∈ D)
    (hname : env.lookup? op.builtin.name = some (.value (.primitive op.builtin [])))
    (hc : Evaluates ⟨none, strategy⟩ c env s σ (.done coll σc))
    (hf : Evaluates ⟨none, strategy⟩ f env s σ (.done func σf)) :
    EndAlike D (EndsIn strategy (.combine op c f) env s σ)
      (EndsIn strategy (.apply (.symbol op.builtin.name) [f, c]) env s σ) := by
  cases strategy with
  | byName => exact endAlike_byName hσ henv hname hc hf
  | byNeed => exact endAlike_byNeed hσ henv hname hc hf

end Main

end Treewalk
