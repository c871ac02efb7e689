import Treewalk.Env
import Treewalk.Proofs.Resemblance

/-!
# Values without identities

`Value.erase` forgets what the history of a run leaves in a value: the identities of its functions and the numbers of
the memo cells of its thunks. Values with the same erasure have the same structure (`Value.erase_eq_iff`), so they look
the same.

`Value.thunks` lists the thunks that a value reaches through the environments of its functions, and of other thunks.
-/

namespace Treewalk

/-! ## Erasure -/

section Erase

mutual

/-- A value without the identities of its functions and the numbers of its memo cells. -/
def Value.erase : Value → Value
  | .unit => .unit
  | .int n => .int n
  | .bool b => .bool b
  | .str s => .str s
  | .list vs => .list (Value.eraseAll vs)
  | .dict ps => .dict (Value.erasePairs ps)
  | .closure _ self params body env => .closure 0 self params body (Env.erase env)
  | .primitive f vs => .primitive f (Value.eraseAll vs)

def Value.eraseAll : List Value → List Value
  | [] => []
  | v :: vs => v.erase :: Value.eraseAll vs

def Value.erasePairs : List (Value × Value) → List (Value × Value)
  | [] => []
  | (k, v) :: ps => (k.erase, v.erase) :: Value.erasePairs ps

def Binding.erase : Binding → Binding
  | .value v => .value v.erase
  | .thunk _ e env => .thunk 0 e (Env.erase env)

/-- An environment without the identities of functions and the numbers of memo cells. -/
def Env.erase : List (String × Binding) → List (String × Binding)
  | [] => []
  | (name, binding) :: env => (name, binding.erase) :: Env.erase env

end

mutual

/-- The thunks that a value reaches: the memo cell, the expression and the environment of each. -/
def Value.thunks : Value → List (Nat × Expr × Env)
  | .unit | .int _ | .bool _ | .str _ => []
  | .list vs => Value.thunksAll vs
  | .dict ps => Value.thunksPairs ps
  | .closure _ _ _ _ env => Env.thunks env
  | .primitive _ vs => Value.thunksAll vs

def Value.thunksAll : List Value → List (Nat × Expr × Env)
  | [] => []
  | v :: vs => v.thunks ++ Value.thunksAll vs

def Value.thunksPairs : List (Value × Value) → List (Nat × Expr × Env)
  | [] => []
  | (k, v) :: ps => k.thunks ++ v.thunks ++ Value.thunksPairs ps

def Binding.thunks : Binding → List (Nat × Expr × Env)
  | .value v => v.thunks
  | .thunk cell e env => (cell, e, env) :: Env.thunks env

/-- The thunks that an environment reaches. -/
def Env.thunks : List (String × Binding) → List (Nat × Expr × Env)
  | [] => []
  | (_, binding) :: env => binding.thunks ++ Env.thunks env

end

end Erase

/-! ## Values of one structure -/

section Structure

open List (Forall₂ forall₂_eq_eq_eq forall₂_map_left_iff forall₂_map_right_iff)

theorem Value.eraseAll_eq_map (vs : List Value) : Value.eraseAll vs = vs.map Value.erase := by
  induction vs with
  | nil => rfl
  | cons v vs ih => rw [Value.eraseAll, ih, List.map_cons]

theorem Value.erasePairs_eq_map (ps : List (Value × Value)) :
    Value.erasePairs ps = ps.map fun p => (p.1.erase, p.2.erase) := by
  induction ps with
  | nil => rfl
  | cons p ps ih => rw [Value.erasePairs, ih, List.map_cons]

/-- Lists with the same images have them item by item. -/
theorem Value.eraseAll_eq_iff {vs vs' : List Value} :
    Value.eraseAll vs = Value.eraseAll vs' ↔ Forall₂ (fun v v' => v.erase = v'.erase) vs vs' := by
  rw [eraseAll_eq_map, eraseAll_eq_map, map_eq_map_iff_forall₂]

theorem Value.erasePairs_eq_iff {ps ps' : List (Value × Value)} :
    Value.erasePairs ps = Value.erasePairs ps' ↔
      Forall₂ (fun p p' => p.1.erase = p'.1.erase ∧ p.2.erase = p'.2.erase) ps ps' := by
  simp only [erasePairs_eq_map, map_eq_map_iff_forall₂, Prod.mk.injEq]

/-- **Values have the same erasure iff they are built alike**, from functions with the same name, parameters, body and
erased environment. -/
theorem Value.erase_eq_iff {v v' : Value} : v.erase = v'.erase ↔
    Value.Layer (fun a a' => a.erase = a'.erase) (fun f f' => f.2.1 = f'.2.1 ∧ Env.erase f.2.2 = Env.erase f'.2.2)
      v v' := by
  constructor
  · intro h
    cases v with
    | unit => cases v' with | unit => exact .unit | _ => cases h
    | int n => cases v' with | int n' => cases h; exact .int n | _ => cases h
    | bool b => cases v' with | bool b' => cases h; exact .bool b | _ => cases h
    | str s => cases v' with | str s' => cases h; exact .str s | _ => cases h
    | list vs => cases v' with | list vs' => exact .list (eraseAll_eq_iff.1 (Value.list.inj h)) | _ => cases h
    | dict ps => cases v' with | dict ps' => exact .dict (erasePairs_eq_iff.1 (Value.dict.inj h)) | _ => cases h
    | closure i self params body env =>
      cases v' with
      | closure i' self' params' body' env' =>
        obtain ⟨_, rfl, rfl, rfl, henv⟩ := Value.closure.inj h
        exact .closure self params ⟨rfl, henv⟩
      | _ => cases h
    | primitive f vs =>
      cases v' with
      | primitive f' vs' =>
        obtain ⟨rfl, hvs⟩ := Value.primitive.inj h
        exact .primitive f (eraseAll_eq_iff.1 hvs)
      | _ => cases h
  · intro h
    cases h with
    | unit | int | bool | str => rfl
    | list h => simp only [erase, eraseAll_eq_iff.2 h]
    | dict h => simp only [erase, erasePairs_eq_iff.2 h]
    | closure self params h =>
      obtain ⟨hbody, henv⟩ := h
      dsimp only at hbody henv
      rw [erase, erase, hbody, henv]
    | primitive f h => simp only [erase, eraseAll_eq_iff.2 h]

/-- The resemblance of values with the same erasure. -/
def erased : Resemblance where
  value v v' := v.erase = v'.erase
  closure f f' := f.2.1 = f'.2.1 ∧ Env.erase f.2.2 = Env.erase f'.2.2
  value_iff _ _ := Value.erase_eq_iff

mutual

theorem Value.erase_erase : ∀ v : Value, v.erase.erase = v.erase
  | .unit | .int _ | .bool _ | .str _ => rfl
  | .list vs => by simp only [Value.erase, Value.eraseAll_eraseAll vs]
  | .dict ps => by simp only [Value.erase, Value.erasePairs_erasePairs ps]
  | .closure _ _ _ _ env => by simp only [Value.erase, Env.erase_erase env]
  | .primitive _ vs => by simp only [Value.erase, Value.eraseAll_eraseAll vs]

theorem Value.eraseAll_eraseAll : ∀ vs : List Value, Value.eraseAll (Value.eraseAll vs) = Value.eraseAll vs
  | [] => rfl
  | v :: vs => by simp only [Value.eraseAll, Value.erase_erase v, Value.eraseAll_eraseAll vs]

theorem Value.erasePairs_erasePairs :
    ∀ ps : List (Value × Value), Value.erasePairs (Value.erasePairs ps) = Value.erasePairs ps
  | [] => rfl
  | (k, v) :: ps => by
    simp only [Value.erasePairs, Value.erase_erase k, Value.erase_erase v, Value.erasePairs_erasePairs ps]

theorem Binding.erase_erase : ∀ b : Binding, b.erase.erase = b.erase
  | .value v => by simp only [Binding.erase, Value.erase_erase v]
  | .thunk _ _ env => by simp only [Binding.erase, Env.erase_erase env]

theorem Env.erase_erase : ∀ env : List (String × Binding), Env.erase (Env.erase env) = Env.erase env
  | [] => rfl
  | (name, b) :: env => by simp only [Env.erase, Binding.erase_erase b, Env.erase_erase env]

end

theorem Env.lookup?_erase (env : Env) (name : String) :
    Env.lookup? (Env.erase env) name = (env.lookup? name).map Binding.erase := by
  unfold Env.lookup?
  split
  · rfl
  · induction env with
    | nil => rfl
    | cons p env ih =>
      obtain ⟨other, binding⟩ := p
      simp only [Env.erase, List.lookup_cons, ih]
      cases name == other <;> rfl

end Structure

/-! ## Thunks -/

section Thunks

/-- Memo cells, each with the expression and the erased environment of its thunk. -/
abbrev Cells : Type := Set (Nat × Expr × Env)

/-- The cells of the thunks are among `w`. -/
def FitIn (w : Cells) (thunks : List (Nat × Expr × Env)) : Prop :=
  ∀ t ∈ thunks, (t.1, t.2.1, Env.erase t.2.2) ∈ w

variable {w w' : Cells}

theorem FitIn.mono {ts : List (Nat × Expr × Env)} (hw : w ≤ w') (h : FitIn w ts) : FitIn w' ts :=
  fun t ht => hw (h t ht)

theorem fitIn_univ (ts : List (Nat × Expr × Env)) : FitIn Set.univ ts :=
  fun _ _ => Set.mem_univ _

theorem fitIn_append {ts us : List (Nat × Expr × Env)} : FitIn w (ts ++ us) ↔ FitIn w ts ∧ FitIn w us :=
  List.forall_mem_append

theorem fitIn_thunksAll {vs : List Value} : FitIn w (Value.thunksAll vs) ↔ ∀ v ∈ vs, FitIn w v.thunks := by
  induction vs with
  | nil => exact ⟨fun _ _ => nofun, fun _ _ => nofun⟩
  | cons v vs ih => rw [Value.thunksAll, fitIn_append, ih, List.forall_mem_cons]

theorem fitIn_thunksPairs {ps : List (Value × Value)} :
    FitIn w (Value.thunksPairs ps) ↔ ∀ p ∈ ps, FitIn w p.1.thunks ∧ FitIn w p.2.thunks := by
  induction ps with
  | nil => exact ⟨fun _ _ => nofun, fun _ _ => nofun⟩
  | cons p ps ih => rw [Value.thunksPairs, fitIn_append, fitIn_append, ih, List.forall_mem_cons]

/-- What a name is bound to reaches no more than the environment. -/
theorem fitIn_lookup {env : Env} {name : String} {b : Binding} (h : env.lookup? name = some b)
    (henv : FitIn w (Env.thunks env)) : FitIn w b.thunks := by
  unfold Env.lookup? at h
  split at h
  · cases h
  · induction env with
    | nil => cases h
    | cons p env ih =>
      obtain ⟨hb, henv⟩ := fitIn_append.1 henv
      rw [List.lookup_cons] at h
      split at h
      · cases h; exact hb
      · exact ih henv h

end Thunks

end Treewalk
