import Treewalk.Proofs.Fuel

/-!
# What a depth limit can do

* **Fatal failures** (`keepsLimit_eval_apply`): without a limit no failure is fatal, and under the limit `m` the only
  fatal failure is the exhaustion of `m`, which is raised on a stack of exactly `m` frames. With fuel `n` no more than
  `2 * n` frames are opened, so a limit above that is not reached.
* **Agreement** (`agree_higher_limit`): a run that does not exhaust its limit ends the same under every higher limit,
  and without one. So a run that ends without a limit ends the same under every limit from some limit on.

Together: the limit only cuts a run short (`limit_only_cuts_short`).
-/

namespace Treewalk

open Run

/-! ## Fatal failures -/

section Fatal

/-- A failure of a run on `stack` that is fatal is the exhaustion of the limit, after `room` frames at most, and its
backtrace starts at the frame that reached the limit. -/
def Failure.KeepsLimit (limit : Option Nat) (stack : CallStack) (room : Nat) (failure : Failure) : Prop :=
  failure.cause.category = .fatal → ∃ m, limit = some m ∧ failure.cause = .recursionLimit m ∧
    m ≤ stack.depth + room ∧ (failure.backtrace = none → stack.depth = m) ∧
    ∀ trace, failure.backtrace = some trace → ∃ text outer, trace.frames = (m, text) :: outer

/-- Every failure of a run on `stack` keeps the limit. -/
def Run.KeepsLimit {α : Type} (limit : Option Nat) (stack : CallStack) (room : Nat) (m : Run α) : Prop :=
  ∀ store failure store', m store = .failed failure store' → failure.KeepsLimit limit stack room

/-- The stack has not passed the limit. -/
def CallStack.Within (limit : Option Nat) (stack : CallStack) : Prop :=
  ∀ m, limit = some m → stack.depth ≤ m

variable {limit : Option Nat} {stack : CallStack} {room : Nat}

theorem Run.KeepsLimit.weaken {α : Type} {m : Run α} {room' : Nat} (hroom : room ≤ room')
    (h : m.KeepsLimit limit stack room) : m.KeepsLimit limit stack room' := by
  intro store failure store' hm hfatal
  obtain ⟨l, hl, hcause, hdepth, htrace⟩ := h store failure store' hm hfatal
  exact ⟨l, hl, hcause, by omega, htrace⟩

theorem keepsLimit_of_not_failed {α : Type} {m : Run α} (h : ∀ store, ∃ a store', m store = .done a store') :
    m.KeepsLimit limit stack room := by
  intro store failure store' hm
  obtain ⟨a, store'', hd⟩ := h store
  rw [hd] at hm
  cases hm

theorem Run.KeepsLimit.bind {α β : Type} {m : Run α} {f : α → Run β} (hm : m.KeepsLimit limit stack room)
    (hf : ∀ a, (f a).KeepsLimit limit stack room) : (m >>= f).KeepsLimit limit stack room := by
  intro store failure store' h
  rw [bind_apply] at h
  cases hr : m store with
  | outOfFuel => rw [hr] at h; cases h
  | failed failure' store'' => rw [hr] at h; cases h; exact hm _ _ _ hr
  | done a store'' => rw [hr] at h; exact hf a _ _ _ h

theorem compositional_keepsLimit (limit : Option Nat) (stack : CallStack) (room : Nat) (strategy : Strategy) :
    Compositional strategy fun m : Unit → Run _ => (m ()).KeepsLimit limit stack room where
  pure a := keepsLimit_of_not_failed fun store => ⟨a, store, rfl⟩
  bind := .bind
  fail cause hcause := by
    intro store failure store' h hfatal
    cases h
    exact absurd hfatal hcause
  freshId := keepsLimit_of_not_failed fun _ => ⟨_, _, rfl⟩
  newCell := keepsLimit_of_not_failed fun _ => ⟨_, _, rfl⟩
  noteIdentityTest _ := keepsLimit_of_not_failed fun _ => ⟨_, _, rfl⟩
  memo? _ _ := keepsLimit_of_not_failed fun _ => ⟨_, _, rfl⟩
  memoize _ cell v := keepsLimit_of_not_failed fun store => by
    dsimp only [Run.memoize]
    split
    · exact ⟨_, _, rfl⟩
    · exact ⟨_, _, rfl⟩

/-- The backtrace of a stack starts at its innermost frame. -/
theorem CallStack.capture_push (stack : CallStack) (e : Expr) :
    ∃ text outer, (stack.push e).capture.frames = (stack.depth + 1, text) :: outer :=
  ⟨_, _, rfl⟩

/-- A frame is opened only within the limit. -/
theorem CallStack.within_push {e : Expr} (h : stack.pushWithin limit e = .ok (stack.push e)) :
    (stack.push e).Within limit := by
  rintro m rfl
  by_contra hpassed
  rw [pushWithin_of_le (Nat.le_of_lt_succ (Nat.lt_of_not_le hpassed))] at h
  cases h

/-- A failure that leaves a frame keeps the limit around it. If it has no backtrace yet, it gets one that starts at the
frame. -/
theorem Failure.KeepsLimit.attach {failure : Failure} {e : Expr} (h : failure.KeepsLimit limit (stack.push e) room) :
    ((stack.push e).attach failure).KeepsLimit limit stack (room + 1) := by
  intro hfatal
  rw [CallStack.attach_cause] at hfatal
  obtain ⟨m, hl, hcause, hdepth, hnone, hsome⟩ := h hfatal
  have hpush : (stack.push e).depth = stack.depth + 1 := rfl
  refine ⟨m, hl, by rw [CallStack.attach_cause]; exact hcause, by omega, ?_⟩
  cases hb : failure.backtrace with
  | some trace =>
    rw [CallStack.attach_of_some _ hb, hb]
    refine ⟨nofun, fun trace' htrace => ?_⟩
    cases htrace
    exact hsome trace hb
  | none =>
    rw [CallStack.attach_of_none _ _ hb]
    refine ⟨nofun, fun trace htrace => ?_⟩
    cases htrace
    obtain ⟨text, outer, hframes⟩ := CallStack.capture_push stack e
    exact ⟨text, outer, by rw [hframes, ← hnone hb, hpush]⟩

/-- A frame keeps the limit if what is done in it does. The failure that a full stack raises has no backtrace yet. -/
theorem Run.KeepsLimit.inFrame {α : Type} {e : Expr} {body : CallStack → Run α} (hwithin : stack.Within limit)
    (h : (stack.push e).Within limit → (body (stack.push e)).KeepsLimit limit (stack.push e) room) :
    (inFrame limit e stack body).KeepsLimit limit stack (room + 1) := by
  intro store failure store' hrun
  unfold Run.inFrame at hrun
  cases hp : stack.pushWithin limit e with
  | error cause =>
    rw [hp] at hrun
    cases hrun
    obtain ⟨m, rfl, hm, rfl⟩ := CallStack.eq_recursionLimit_of_pushWithin hp
    have := hwithin m rfl
    intro _
    exact ⟨m, rfl, rfl, by omega, fun _ => by omega, fun _ => nofun⟩
  | ok inner =>
    obtain rfl := CallStack.eq_push_of_pushWithin hp
    rw [hp] at hrun
    dsimp only at hrun
    cases hr : body (stack.push e) store with
    | outOfFuel => rw [hr] at hrun; cases hrun
    | done a store'' => rw [hr] at hrun; cases hrun
    | failed f store'' =>
      rw [hr] at hrun
      cases hrun
      exact (h (CallStack.within_push hp) store f store' hr).attach

variable {strategy : Strategy}

/-- With fuel `n`, runs on a stack that has not passed the limit keep it, and open `2 * n` frames at most: one for each
expression, and one for a declaration in a sequence. -/
theorem keepsLimit_eval_apply : ∀ (n : Nat) (stack : CallStack), stack.Within limit →
    (∀ e env, (eval ⟨limit, strategy⟩ n e env stack).KeepsLimit limit stack (2 * n)) ∧
      ∀ callee args, (apply ⟨limit, strategy⟩ n callee args stack).KeepsLimit limit stack (2 * n)
  | 0, _, _ => ⟨fun _ _ => fun _ _ _ => nofun, fun _ _ => fun _ _ _ => nofun⟩
  | n + 1, stack, hwithin => by
    let I : Unit → Interpreter := fun _ => interpreter ⟨limit, strategy⟩ n
    constructor
    · intro e env
      rw [eval_succ]
      refine Run.KeepsLimit.inFrame hwithin fun hinner => ?_
      have hP := compositional_keepsLimit limit (stack.push e) (2 * n + 1) strategy
      obtain ⟨heval, happly⟩ := keepsLimit_eval_apply n (stack.push e) hinner
      refine hP.evalStep I (fun _ => stack.push e) (fun e' env' => (heval e' env').weaken (by omega))
        (fun _ => ⟨limit, strategy⟩) (fun _ => rfl) (fun callee args => (happly callee args).weaken (by omega)) ?_ e env
      intro decl env'
      refine Run.KeepsLimit.inFrame hinner fun hdecl => ?_
      have hP' := compositional_keepsLimit limit ((stack.push e).push (.declare decl)) (2 * n) strategy
      exact hP'.declare I (fun _ => (stack.push e).push (.declare decl)) (keepsLimit_eval_apply n _ hdecl).1 decl env'
    · intro callee args
      rw [apply_succ]
      have hP := compositional_keepsLimit limit stack (2 * (n + 1)) strategy
      obtain ⟨heval, happly⟩ := keepsLimit_eval_apply n stack hwithin
      refine hP.applyStep I (fun _ => stack) callee args (fun e env => (heval e env).weaken (by omega)) ?_
      intro builtin collected _
      refine hP.callBuiltin I (fun _ => stack) builtin _ fun op func coll _ => ?_
      exact hP.combine I (fun _ => stack) op func fun before v _ => (happly func (before ++ [v])).weaken (by omega)

/-- Without a limit no failure is fatal. -/
theorem Evaluates.not_fatal {e : Expr} {env : Env} {store store' : Store} {failure : Failure}
    (h : Evaluates ⟨none, strategy⟩ e env stack store (.failed failure store')) : failure.cause.category ≠ .fatal := by
  obtain ⟨-, n, hn⟩ := h
  intro hfatal
  obtain ⟨m, hm, _⟩ := (keepsLimit_eval_apply n stack (by rintro _ ⟨⟩)).1 e env store failure store' hn hfatal
  cases hm

/-- On a stack that has not passed the limit `m`, a fatal failure is the exhaustion of `m`. -/
theorem Evaluates.eq_recursionLimit {m : Nat} {e : Expr} {env : Env} {store store' : Store} {failure : Failure}
    (h : Evaluates ⟨some m, strategy⟩ e env stack store (.failed failure store')) (hstack : stack.depth ≤ m)
    (hfatal : failure.cause.category = .fatal) : failure.cause = .recursionLimit m := by
  obtain ⟨-, n, hn⟩ := h
  have hwithin : stack.Within (some m) := by
    rintro _ ⟨⟩
    exact hstack
  obtain ⟨m', hm', hcause, _⟩ := (keepsLimit_eval_apply n stack hwithin).1 e env store failure store' hn hfatal
  cases hm'
  exact hcause

end Fatal

/-! ## Higher limits -/

section Higher

variable {strategy : Strategy} {m : Nat} {limit : Option Nat}

/-- The exhaustion of the limit `m`. -/
def Failure.Exhausts (m : Nat) (failure : Failure) : Prop :=
  failure.cause = .recursionLimit m

/-- Under a higher limit, or none, a run ends as under the limit `m`, unless it exhausts `m`. -/
theorem agree_higher_limit (hm : ∀ m', limit = some m' → m ≤ m') (n : Nat) (e : Expr) (env : Env) (stack : CallStack) :
    Agree (fun cut => ∃ failure, cut = some failure ∧ failure.Exhausts m)
      (eval ⟨some m, strategy⟩ n e env stack) (eval ⟨limit, strategy⟩ n e env stack) := by
  refine (agree_eval_apply ⟨some m, strategy⟩ ⟨limit, strategy⟩ rfl (fun e stack body body' hbody => ?_) (Or.inl rfl)
    n).1 e env stack
  by_cases hfull : m ≤ stack.depth
  · intro store
    simp only [inFrame, CallStack.pushWithin_of_le hfull]
    exact Or.inl (.failed ⟨_, rfl, rfl⟩)
  · have hpush' : stack.pushWithin limit e = .ok (stack.push e) := by
      cases limit with
      | none => rfl
      | some m' =>
        have := hm m' rfl
        exact CallStack.pushWithin_of_lt (by omega) e
    refine Agree.inFrame ?_ (CallStack.pushWithin_of_lt (by omega) e) hpush' hbody
    rintro stack' failure ⟨_, ⟨⟩, hexhausts⟩
    exact ⟨_, rfl, (stack'.attach_cause failure).trans hexhausts⟩

/-- A run that ends without exhausting its limit ends the same under a higher limit, or none. -/
theorem eval_higher_limit (hm : ∀ m', limit = some m' → m ≤ m') {n : Nat} {e : Expr} {env : Env} {stack : CallStack}
    {store : Store} (h : ∀ failure store', eval ⟨some m, strategy⟩ n e env stack store = .failed failure store' →
      ¬failure.Exhausts m) :
    eval ⟨limit, strategy⟩ n e env stack store = eval ⟨some m, strategy⟩ n e env stack store := by
  rcases agree_higher_limit hm n e env stack store with hcut | heq
  · cases hr : eval ⟨some m, strategy⟩ n e env stack store with
    | outOfFuel => rw [hr] at hcut; cases hcut with | outOfFuel h => obtain ⟨_, h, _⟩ := h; cases h
    | done v store' => rw [hr] at hcut; cases hcut
    | failed failure store' =>
      rw [hr] at hcut
      cases hcut with
      | failed hex =>
        obtain ⟨_, hf, hex⟩ := hex
        cases hf
        exact absurd hex (h failure store' hr)
  · exact heq.symm

/-- A run that ends without exhausting its limit ends the same without one. -/
theorem eval_unlimited {n : Nat} {e : Expr} {env : Env} {stack : CallStack} {store : Store}
    (h : ∀ m failure store', limit = some m → eval ⟨limit, strategy⟩ n e env stack store = .failed failure store' →
      ¬failure.Exhausts m) :
    eval ⟨none, strategy⟩ n e env stack store = eval ⟨limit, strategy⟩ n e env stack store := by
  cases limit with
  | none => rfl
  | some m => exact eval_higher_limit (by rintro _ ⟨⟩) fun failure store' => h m failure store' rfl

theorem Evaluates.unlimited {e : Expr} {env : Env} {stack : CallStack} {store : Store} {outcome : Outcome Value}
    (h : Evaluates ⟨some m, strategy⟩ e env stack store outcome)
    (hlimit : ∀ failure store', outcome = .failed failure store' → ¬failure.Exhausts m) :
    Evaluates ⟨none, strategy⟩ e env stack store outcome := by
  obtain ⟨hends, n, rfl⟩ := h
  refine ⟨hends, n, eval_unlimited ?_⟩
  rintro _ failure store' ⟨⟩ hfailed
  exact hlimit failure store' hfailed

/-- Under a limit, an expression ends as it does without one, unless it exhausts the limit. -/
theorem Evaluates.eval_within {e : Expr} {env : Env} {stack : CallStack} {store : Store} {outcome : Outcome Value}
    (h : Evaluates ⟨none, strategy⟩ e env stack store outcome) (limit : Option Nat) (n : Nat) :
    eval ⟨limit, strategy⟩ n e env stack store = .outOfFuel ∨
      (∃ failure store', eval ⟨limit, strategy⟩ n e env stack store = .failed failure store' ∧
        failure.cause.category = .fatal) ∨
      eval ⟨limit, strategy⟩ n e env stack store = outcome := by
  by_cases hfatal : ∃ failure store', eval ⟨limit, strategy⟩ n e env stack store = .failed failure store' ∧
      failure.cause.category = .fatal
  · exact Or.inr (Or.inl hfatal)
  · have hlimit : eval ⟨none, strategy⟩ n e env stack store = eval ⟨limit, strategy⟩ n e env stack store := by
      refine eval_unlimited fun m failure store' _ hfailed hexhausts => hfatal ⟨failure, store', hfailed, ?_⟩
      rw [hexhausts]
      rfl
    rw [← hlimit]
    exact (h.eval_eq_or n).imp_right Or.inr

end Higher

/-! ## The limit only cuts a run short -/

section Main

/-- **A depth limit can only cut a run short**, by the exhaustion of that limit and where it is reached. A run that does
not exhaust it ends the same under every higher limit and under none. -/
theorem limit_only_cuts_short (strategy : Strategy) (e : Expr) (env : Env) (stack : CallStack) (store : Store) :
    (∀ failure store', Evaluates ⟨none, strategy⟩ e env stack store (.failed failure store') →
      failure.cause.category ≠ .fatal) ∧
    (∀ m failure store', Evaluates ⟨some m, strategy⟩ e env stack store (.failed failure store') →
      failure.cause.category = .fatal → failure.cause = .recursionLimit m ∧
        (stack.depth < m → ∃ trace text outer, failure.backtrace = some trace ∧ trace.frames = (m, text) :: outer)) ∧
    (∀ m, m ≤ stack.depth →
      Evaluates ⟨some m, strategy⟩ e env stack store (.failed ⟨.recursionLimit m, none⟩ store)) ∧
    (∀ m outcome, Evaluates ⟨some m, strategy⟩ e env stack store outcome →
      (∀ failure store', outcome = .failed failure store' → failure.cause ≠ .recursionLimit m) →
        (∀ m', m ≤ m' → Evaluates ⟨some m', strategy⟩ e env stack store outcome) ∧
          Evaluates ⟨none, strategy⟩ e env stack store outcome) ∧
    (∀ outcome, Evaluates ⟨none, strategy⟩ e env stack store outcome →
      ∃ M, ∀ m, M ≤ m → Evaluates ⟨some m, strategy⟩ e env stack store outcome) := by
  have hfull : ∀ m, m ≤ stack.depth →
      Evaluates ⟨some m, strategy⟩ e env stack store (.failed ⟨.recursionLimit m, none⟩ store) := by
    intro m hm
    refine ⟨nofun, 1, ?_⟩
    simp only [eval_succ, inFrame, CallStack.pushWithin_of_le hm]
    rfl
  refine ⟨?_, ?_, hfull, ?_, ?_⟩
  · rintro failure store' ⟨_, n, hn⟩ hfatal
    obtain ⟨m, hm, _⟩ := (keepsLimit_eval_apply n stack (by rintro _ ⟨⟩)).1 e env store failure store' hn hfatal
    cases hm
  · intro m failure store' heval hfatal
    by_cases hm : m ≤ stack.depth
    · cases heval.unique (hfull m hm)
      exact ⟨rfl, fun h => by omega⟩
    · obtain ⟨_, n, hn⟩ := heval
      have hwithin : stack.Within (some m) := by rintro _ ⟨⟩; omega
      obtain ⟨m', hm', hcause, _, hnone, hsome⟩ :=
        (keepsLimit_eval_apply n stack hwithin).1 e env store failure store' hn hfatal
      cases hm'
      refine ⟨hcause, fun hdepth => ?_⟩
      cases hb : failure.backtrace with
      | none => have := hnone hb; omega
      | some trace =>
        obtain ⟨text, outer, hframes⟩ := hsome trace hb
        exact ⟨trace, text, outer, rfl, hframes⟩
  · rintro m outcome ⟨hends, n, rfl⟩ hlimit
    constructor
    · intro m' hm
      refine ⟨hends, n, eval_higher_limit ?_ hlimit⟩
      rintro _ ⟨⟩
      exact hm
    · exact ⟨hends, n, eval_higher_limit (by rintro _ ⟨⟩) hlimit⟩
  · rintro outcome ⟨hends, n, rfl⟩
    -- with fuel `n` the stack cannot reach such a limit
    refine ⟨stack.depth + 2 * n + 1, fun m hm => ⟨hends, n, (eval_higher_limit (by rintro _ ⟨⟩) ?_).symm⟩⟩
    intro failure store' hn hexhausts
    have hwithin : stack.Within (some m) := by rintro _ ⟨⟩; omega
    have hfatal : failure.cause.category = .fatal := by rw [hexhausts]; rfl
    obtain ⟨m', hm', _, hroom, _⟩ := (keepsLimit_eval_apply n stack hwithin).1 e env store failure store' hn hfatal
    cases hm'
    omega

end Main

end Treewalk
