import Treewalk.Proofs.BatchOrder

/-!
# Currying

A function that awaits `n` arguments (`Value.awaited?`) and gets fewer gives a function of the others
(`Value.supplied`). Three kinds of functions keep the arguments that they have got in different ways: a function and a
recursive function in an environment, the latter beside its own name, and a builtin in a list. For each, the other
arguments do to the function of the others what all arguments do at once (`applyStep_supplied`): parameters are bound
from left to right either way, so a later one hides an earlier one of the same name, and any hides the function's own
name.

The function of the others may have taken an identity. So the two ways differ in the store they start from, and
**currying is associative** up to a one-to-one renaming (`currying_associative`). It is enough that the store is
coherent and knows the values; whatever a host has is (`Host.Reached.exists_coherent`).
-/

namespace Treewalk

open Run Filter

/-! ## Functions of the other arguments -/

section Supplied

/-- The number of arguments that a function still awaits. -/
def Value.awaited? : Value → Option Nat
  | .closure _ _ params _ _ => some params.length
  | .primitive builtin collected => some (builtin.arity - collected.length)
  | _ => none

/-- The function of the other arguments. A closure of them has an identity of its own and is not recursive. -/
def Value.supplied (id : Nat) (f : Value) (args : List Value) : Value :=
  match f with
  | .closure _ self params body env =>
    .closure id none (params.drop args.length) body (Interpreter.bodyEnv f self env (params.zip args))
  | .primitive builtin collected => .primitive builtin (collected ++ args)
  | v => v

variable {f : Value} {xs ys : List Value} {n : Nat}

theorem awaited?_supplied (hf : f.awaited? = some n) (id : Nat) (args : List Value) :
    (f.supplied id args).awaited? = some (n - args.length) := by
  cases f with
  | closure | primitive =>
    cases hf
    simp [Value.supplied, Value.awaited?, Nat.sub_sub]
  | _ => cases hf

/-- Names are given to the arguments in order. -/
theorem zip_append_of_le {α β : Type} {as : List α} {bs cs : List β} (h : bs.length ≤ as.length) :
    as.zip (bs ++ cs) = as.zip bs ++ (as.drop bs.length).zip cs := by
  induction bs generalizing as with
  | nil => simp
  | cons b bs ih =>
    cases as with
    | nil => simp at h
    | cons a as => simp [ih (Nat.le_of_succ_le_succ h)]

/-- Binding some parameters and then the others binds all of them. -/
theorem bodyEnv_append {self : Option String} {env : Env} {params : List String} (h : xs.length ≤ params.length) :
    Interpreter.bodyEnv f self env (params.zip (xs ++ ys)) =
      (Interpreter.bodyEnv f self env (params.zip xs)).bindAll ((params.drop xs.length).zip ys) := by
  rw [zip_append_of_le h]
  exact List.foldl_append

/-- **The other arguments do what all arguments do at once**, with any evaluator and from any store. -/
theorem applyStep_supplied (I : Interpreter) (hf : f.awaited? = some n) (hxs : xs.length < n)
    (hys : xs.length + ys.length ≤ n) (id : Nat) (stack : CallStack) :
    I.applyStep (f.supplied id xs) ys stack = I.applyStep f (xs ++ ys) stack := by
  cases f with
  | closure i self params body env =>
    cases hf
    have hmany : ¬params.length < (xs ++ ys).length := by simp; omega
    have hmany' : ¬(params.drop xs.length).length < ys.length := by simp; omega
    have hfew : ys.length < (params.drop xs.length).length ↔ (xs ++ ys).length < params.length := by simp; omega
    simp only [Value.supplied, Interpreter.applyStep, if_neg hmany, if_neg hmany', hfew, bodyEnv_append hxs.le]
    simp only [Interpreter.bodyEnv, List.drop_drop, List.length_append]
  | primitive builtin collected => simp only [Value.supplied, Interpreter.applyStep, List.append_assoc]
  | _ => cases hf

theorem apply_supplied (config : Config) (k : Nat) (hf : f.awaited? = some n) (hxs : xs.length < n)
    (hys : xs.length + ys.length ≤ n) (id : Nat) (stack : CallStack) :
    apply config k (f.supplied id xs) ys stack = apply config k f (xs ++ ys) stack := by
  cases k with
  | zero => rfl
  | succ k => exact applyStep_supplied (interpreter config k) hf hxs hys id stack

/-- With fewer arguments than it awaits, a function gives a function of the others. At most an identity is handed
out. -/
theorem applyStep_of_few (hf : f.awaited? = some n) (hxs : xs.length < n) (store : Store) :
    ∃ id after, (∀ (I : Interpreter) stack, I.applyStep f xs stack store = .done (f.supplied id xs) after) ∧
      (∀ strategy, store.GrowsTo strategy after) ∧ ∀ cell, after.memo? cell = store.memo? cell := by
  cases f with
  | closure i self params body env =>
    cases hf
    refine ⟨store.nextId, { store with nextId := store.nextId + 1 }, fun I stack => ?_, fun strategy => ?_,
      fun _ => rfl⟩
    · simp only [Interpreter.applyStep, if_neg hxs.le.not_gt, if_pos hxs]
      rfl
    · exact ⟨Nat.le_succ _, le_rfl, id, fun _ _ => rfl⟩
  | primitive builtin collected =>
    cases hf
    have hmany : ¬builtin.arity < (collected ++ xs).length := by simp; omega
    have hfew : (collected ++ xs).length < builtin.arity := by simp; omega
    refine ⟨0, store, fun I stack => ?_, fun strategy => .refl _ _, fun _ => rfl⟩
    simp only [Interpreter.applyStep, if_neg hmany, if_pos hfew]
    rfl
  | _ => cases hf

/-- The function refuses the number of arguments, whatever the store, before anything is evaluated. -/
def RefusesArity (config : Config) (callee : Value) (args : List Value) (stack : CallStack) : Prop :=
  ∃ name expected got, ∀ k store,
    apply config (k + 1) callee args stack store = .failed ⟨.arityMismatch name expected got, none⟩ store

/-- With more arguments than it awaits, a function refuses. -/
theorem refusesArity_of_many {args : List Value} (hf : f.awaited? = some n) (h : n < args.length) (config : Config)
    (stack : CallStack) : RefusesArity config f args stack := by
  cases f with
  | closure i self params body env =>
    cases hf
    refine ⟨self.getD "", params.length, args.length, fun k store => ?_⟩
    simp only [apply_succ, Interpreter.applyStep, if_pos h]
    rfl
  | primitive builtin collected =>
    cases hf
    have hmany : builtin.arity < (collected ++ args).length := by simp; omega
    refine ⟨builtin.name, builtin.arity, (collected ++ args).length, fun k store => ?_⟩
    simp only [apply_succ, Interpreter.applyStep, if_pos hmany]
    rfl
  | _ => cases hf

end Supplied

/-! ## Stores in which more identities have been handed out -/

section Alike

/-- Two applications end alike: with results that are equal up to a one-to-one renaming that changes none of the marks
of the set, or not at all. -/
def AppliesAlike (config : Config) (D : Set Mark) (stack : CallStack) (f : Value) (xs : List Value) (σ : Store)
    (g : Value) (ys : List Value) (τ : Store) : Prop :=
  (∃ result result' σ' τ', Applies config f xs stack σ (Result.leaving σ' result) ∧
    Applies config g ys stack τ (Result.leaving τ' result') ∧
    ∃ ρ : Renaming, ρ.OneToOne ∧ (∀ m ∈ D, ρ m m) ∧ result.Renamed ρ result') ∨
  ∀ outcome, ¬Applies config f xs stack σ outcome ∧ ¬Applies config g ys stack τ outcome

variable {config : Config} {D : Set Mark} {σ τ : Store} {f : Value} {args : List Value}

/-- **An application does not depend on what nothing refers to.** Each side follows the other one. -/
theorem appliesAlike_of_grows (h : σ.Coherent D) (hgrows : σ.GrowsTo config.strategy τ)
    (hmemo : ∀ cell, τ.memo? cell = σ.memo? cell) (hvalues : ∀ v ∈ f :: args, ∀ m ∈ v.marks, m ∈ D)
    (stack : CallStack) : AppliesAlike config D stack f args σ f args τ := by
  let d := Departure.level config.strategy D σ τ
  have hstart : d.Abreast (Stage.on D h.oneToOne) σ τ := h.level hgrows hmemo
  have hrenamed : ∀ v ∈ f :: args, Value.Renamed (Stage.on D h.oneToOne).marks v v :=
    fun v hv => Value.renamed_on_iff.2 (hvalues v hv)
  obtain ⟨hf, hargs⟩ := List.forall_mem_cons.1 hrenamed
  by_cases hends : ∃ outcome, Applies config f args stack σ outcome
  · obtain ⟨outcome, hne, n, hn⟩ := hends
    have hfollows := (interprets_of_no_exempt (d := d) rfl config.maxDepth n).apply (w := Stage.on D h.oneToOne) hf
      (List.forall₂_same.2 hargs) (rfl : stack = stack) σ τ hstart
    rw [show (interpreter ⟨config.maxDepth, d.strategy⟩ n).apply f args stack σ = outcome from hn] at hfollows
    refine Or.inl ?_
    cases outcome with
    | outOfFuel => exact absurd rfl hne
    | done v σ' =>
      obtain ⟨w, v', τ', hw, hv, -, hdone⟩ := Tracking.exists_done hfollows
      exact ⟨.ok v, .ok v', σ', τ', ⟨nofun, n, hn⟩, ⟨nofun, hdone.exists⟩, w.marks, w.oneToOne,
        fun m hm => hw.1 m m ⟨rfl, hm⟩, .ok hv⟩
    | failed failure σ' =>
      obtain ⟨w, τ', hw, -, hfailed⟩ := Tracking.exists_failed hfollows fun hpardon => hpardon.1
      exact ⟨.error failure, .error failure, σ', τ', ⟨nofun, n, hn⟩, ⟨nofun, hfailed.exists⟩, w.marks, w.oneToOne,
        fun m hm => hw.1 m m ⟨rfl, hm⟩, .error failure⟩
  · refine Or.inr fun outcome => ⟨fun happlies => hends ⟨outcome, happlies⟩, fun ⟨hne, n, hn⟩ => hends ?_⟩
    have hfollows := (interprets_flip_of_no_exempt (d := d) rfl config.maxDepth n).apply (w := Stage.on D h.oneToOne)
      hf.symm (List.forall₂_same.2 fun v hv => (hargs v hv).symm) (rfl : stack = stack) τ σ hstart
    rw [show (interpreter ⟨config.maxDepth, d.strategy⟩ n).apply f args stack τ = outcome from hn] at hfollows
    cases outcome with
    | outOfFuel => exact absurd rfl hne
    | done v τ' =>
      obtain ⟨_, v', σ', _, _, _, hdone⟩ := Tracking.exists_done hfollows
      exact ⟨.done v' σ', nofun, hdone.exists⟩
    | failed failure τ' =>
      obtain ⟨_, σ', _, _, hfailed⟩ := Tracking.exists_failed hfollows id
      exact ⟨.failed failure σ', nofun, hfailed.exists⟩

end Alike

/-! ## Associativity -/

section Main

/-- **Currying is associative.** What a function gives with some of its arguments ends with the others as the function
does with all of them, and refuses too many of them as it does. -/
theorem currying_associative (config : Config) {D : Set Mark} {store : Store} {f : Value} {xs ys : List Value}
    {n : Nat} (stack : CallStack) (hstore : store.Coherent D)
    (hvalues : ∀ v ∈ f :: (xs ++ ys), ∀ m ∈ v.marks, m ∈ D) (hf : f.awaited? = some n) (hxs : xs.length < n) :
    ∃ g after, Applies config f xs stack store (.done g after) ∧ g.awaited? = some (n - xs.length) ∧
      (xs.length + ys.length ≤ n → AppliesAlike config D stack f (xs ++ ys) store g ys after) ∧
      (n < xs.length + ys.length → RefusesArity config f (xs ++ ys) stack ∧ RefusesArity config g ys stack) := by
  obtain ⟨id, after, hstep, hgrows, hmemo⟩ := applyStep_of_few hf hxs store
  have hg := awaited?_supplied hf id xs
  refine ⟨f.supplied id xs, after, ⟨nofun, 1, hstep _ stack⟩, hg, fun hys => ?_, fun hmany => ⟨?_, ?_⟩⟩
  · have halike := appliesAlike_of_grows hstore (hgrows config.strategy) hmemo hvalues stack
    unfold AppliesAlike Applies at halike ⊢
    simp only [apply_supplied config _ hf hxs hys id stack]
    exact halike
  · refine refusesArity_of_many hf ?_ config stack
    simpa using hmany
  · refine refusesArity_of_many hg ?_ config stack
    omega

/-- A recursive function, whose first parameter hides its own name and whose others have one name. -/
theorem currying_associative_hidden :
    let f : Value := .closure 0 (some "f") ["f", "x", "x"] (.list [.symbol "f", .symbol "x"]) []
    let store : Store := { nextId := 1 }
    ∃ g after, Applies ⟨some 2, .byNeed⟩ f [.int 1] CallStack.empty store (.done g after) ∧
      g.awaited? = some 2 ∧
      AppliesAlike ⟨some 2, .byNeed⟩ { .ident 0 } CallStack.empty f [.int 1, .int 2, .int 3] store g
        [.int 2, .int 3] after := by
  intro f store
  have hstore : store.Coherent { .ident 0 } := by
    refine ⟨?_, ?_, nofun⟩
    · rintro _ rfl
      exact Nat.zero_lt_one
    · rintro _ rfl _ rfl _
      rfl
  have hvalues : ∀ v ∈ f :: ([.int 1] ++ [.int 2, .int 3]), ∀ m ∈ v.marks, m ∈ ({ .ident 0 } : Set Mark) := by
    simp [f, Value.marks, Env.marks]
  obtain ⟨g, after, happlies, hg, hfew, -⟩ :=
    currying_associative ⟨some 2, .byNeed⟩ CallStack.empty hstore hvalues (n := 3) rfl (by decide)
  exact ⟨g, after, happlies, hg, hfew (by decide)⟩

end Main

end Treewalk
