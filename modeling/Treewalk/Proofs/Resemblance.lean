import Treewalk.Proofs.Congruence
import Treewalk.Proofs.ValueEquality

/-!
# Values that resemble each other

A `Resemblance` relates values that are built alike from functions that are related in a way it chooses: what makes two
functions related is left open, but they have the same name and parameters.

A resemblance is a congruence that asks nothing of dictionaries (`Resemblance.congruence`). So values that resemble each
other look the same, and operations on them give results that resemble each other, or the same cause. Data resembles
only itself (`Resemblance.eq_of_isData`).
-/

namespace Treewalk

open Value

/-! ## Resemblance -/

section Basic

/-- A relation between values that goes down to their functions. -/
structure Resemblance where
  value : Value → Value → Prop
  /-- What relates the identities, bodies and environments of functions. -/
  closure : Nat × Expr × Env → Nat × Expr × Env → Prop
  value_iff : ∀ v v', value v v' ↔ Value.Layer value closure v v'

namespace Resemblance

variable (S : Resemblance)

/-- The pairs of dictionaries, related by their keys and their values. -/
def pair (p p' : Value × Value) : Prop :=
  S.value p.1 p'.1 ∧ S.value p.2 p'.2

/-- The resemblance relates identities one to one. -/
def Exact : Prop :=
  ∀ {f f' g g' : Nat × Expr × Env}, S.closure f f' → S.closure g g' → (f.1 == g.1) = (f'.1 == g'.1)

/-- A comparison whose answer does not hang on identities, unless the resemblance keeps them. -/
def Settles (S : Resemblance) (byIdentity : Bool) : Prop :=
  S.Exact ∨ byIdentity = false

variable {S} {v v' : Value}

theorem layer (h : S.value v v') : Value.Layer S.value S.closure v v' :=
  (S.value_iff v v').1 h

theorem of_list {vs vs' : List Value} (h : List.Forall₂ S.value vs vs') : S.value (.list vs) (.list vs') :=
  (S.value_iff _ _).2 (.list h)

theorem of_dict {ps ps' : List (Value × Value)} (h : List.Forall₂ S.pair ps ps') : S.value (.dict ps) (.dict ps') :=
  (S.value_iff _ _).2 (.dict h)

variable (S) in
/-- A resemblance is kept by operations. -/
def congruence : Congruence where
  value := S.value
  ident i i' := ∃ f f', S.closure f f' ∧ f.1 = i ∧ f'.1 = i'
  keys := .any
  layer h := (layer h).imp fun {f f'} hf => ⟨f, f', hf, rfl, rfl⟩
  keys_of_dict _ := trivial
  int n := (S.value_iff _ _).2 (.int n)
  bool b := (S.value_iff _ _).2 (.bool b)
  str s := (S.value_iff _ _).2 (.str s)
  list := of_list
  dict h _ := of_dict h

theorem Settles.congruence {byIdentity : Bool} (h : S.Settles byIdentity) : S.congruence.Settles byIdentity := by
  rcases h with h | h
  · refine Or.inl ?_
    rintro _ _ _ _ ⟨f, f', hf, rfl, rfl⟩ ⟨g, g', hg, rfl, rfl⟩
    exact h hf hg
  · exact Or.inr h

theorem typeName_eq (h : S.value v v') : v.typeName = v'.typeName :=
  Congruence.typeName_eq (S := S.congruence) h

theorem isCallable_eq (h : S.value v v') : v.isCallable = v'.isCallable :=
  Congruence.isCallable_eq (S := S.congruence) h

theorem display_eq (h : S.value v v') : v.display = v'.display :=
  Congruence.display_eq (S := S.congruence) h

end Resemblance

end Basic

/-! ## Answers of operations -/

section Answers

namespace Resemblance

variable {S : Resemblance} {a a' b b' key key' : Value} {ps ps' : Dict}

theorem length (h : S.value a a') : SameAnswer S.value a.length a'.length :=
  Congruence.length (S := S.congruence) h

theorem unary (op : Unary) (h : S.value a a') : SameAnswer S.value (op.apply a) (op.apply a') :=
  Congruence.unary (S := S.congruence) op h

theorem search_eq (hkey : S.value key key') (hps : List.Forall₂ S.pair ps ps')
    (hs : S.Settles (Dict.testsIdentity key ps)) : Dict.testsIdentity key' ps' = Dict.testsIdentity key ps :=
  Congruence.search_eq (S := S.congruence) hkey hps hs.congruence

theorem insertPair {v v' : Value} (hkey : S.value key key') (hv : S.value v v') (hps : List.Forall₂ S.pair ps ps')
    (hs : S.Settles (Dict.testsIdentity key ps)) :
    List.Forall₂ S.pair (Dict.insert key v ps) (Dict.insert key' v' ps') :=
  Congruence.insertPair (S := S.congruence) hkey hv hps hs.congruence

theorem searchTestsIdentity_eq {dict dict' : Value} (hkey : S.value key key') (hdict : S.value dict dict')
    (hs : S.Settles (key.searchTestsIdentity dict)) :
    key'.searchTestsIdentity dict' = key.searchTestsIdentity dict :=
  Congruence.searchTestsIdentity_eq (S := S.congruence) hkey hdict hs.congruence

theorem insert {v v' dict dict' : Value} (hkey : S.value key key') (hv : S.value v v') (hdict : S.value dict dict')
    (hs : S.Settles (key.searchTestsIdentity dict)) :
    SameAnswer S.value (Value.insert key v dict) (Value.insert key' v' dict') :=
  Congruence.insert (S := S.congruence) hkey hv hdict hs.congruence

theorem binary_testsIdentity_eq (op : Binary) (ha : S.value a a') (hb : S.value b b')
    (hs : S.Settles (op.testsIdentity a b)) : op.testsIdentity a' b' = op.testsIdentity a b :=
  Congruence.binary_testsIdentity_eq (S := S.congruence) op ha hb hs.congruence

/-- **A binary operation answers alike on values that resemble each other**, unless it has to tell functions apart. -/
theorem binary (op : Binary) (ha : S.value a a') (hb : S.value b b') (hs : S.Settles (op.testsIdentity a b)) :
    SameAnswer S.value (op.apply a b) (op.apply a' b') :=
  Congruence.binary (S := S.congruence) op ha hb hs.congruence

end Resemblance

end Answers

/-! ## Data -/

section Data

mutual

/-- Whether a value contains no function. -/
def Value.isData : Value → Bool
  | .unit | .int _ | .bool _ | .str _ => true
  | .list vs => isDataAll vs
  | .dict ps => isDataPairs ps
  | .closure _ _ _ _ _ | .primitive _ _ => false

def Value.isDataAll : List Value → Bool
  | [] => true
  | v :: vs => v.isData && isDataAll vs

def Value.isDataPairs : List (Value × Value) → Bool
  | [] => true
  | (k, v) :: ps => k.isData && v.isData && isDataPairs ps

end

namespace Resemblance

variable {S : Resemblance}

mutual

/-- Data resembles only itself. -/
theorem eq_of_isData : ∀ {v v' : Value}, S.value v v' → v.isData = true → v' = v
  | _, _, h, hdata => by
    cases layer h with
    | unit | int | bool | str => rfl
    | list hvs => rw [eq_of_isDataAll hvs hdata]
    | dict hps => rw [eq_of_isDataPairs hps hdata]
    | closure | primitive => cases hdata

theorem eq_of_isDataAll : ∀ {vs vs' : List Value}, List.Forall₂ S.value vs vs' → isDataAll vs = true → vs' = vs
  | [], _, h, _ => by cases h; rfl
  | v :: vs, _, h, hdata => by
    cases h with
    | cons hv hvs =>
      obtain ⟨hdv, hdvs⟩ := Bool.and_eq_true_iff.1 hdata
      rw [eq_of_isData hv hdv, eq_of_isDataAll hvs hdvs]

theorem eq_of_isDataPairs : ∀ {ps ps' : List (Value × Value)}, List.Forall₂ S.pair ps ps' → isDataPairs ps = true →
    ps' = ps
  | [], _, h, _ => by cases h; rfl
  | (k, v) :: ps, _, h, hdata => by
    cases h with
    | cons hp hps =>
      obtain ⟨hdp, hdps⟩ := Bool.and_eq_true_iff.1 hdata
      obtain ⟨hdk, hdv⟩ := Bool.and_eq_true_iff.1 hdp
      rw [eq_of_isDataPairs hps hdps, Prod.ext (eq_of_isData hp.1 hdk) (eq_of_isData hp.2 hdv)]

end

end Resemblance

end Data

end Treewalk