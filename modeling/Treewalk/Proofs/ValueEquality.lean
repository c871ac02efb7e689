import Treewalk.Value.Equality

/-!
# Equality of values is an equivalence

Equality of values is reflexive (`Value.beq_refl`), symmetric (`Value.beq_comm`) and transitive (`Value.beq_trans`),
also where functions are compared by their identities; hence the instance of `EquivBEq`, whose lemmas replace a value by
an equal one in a comparison.
-/

namespace Treewalk.Value

/-! ## Reflexivity -/

mutual

theorem beq_refl : ∀ v : Value, beq v v = true
  | .unit => rfl
  | .int _ | .bool _ | .str _ => by simp [beq]
  | .list vs => by rw [beq, beqAll_refl vs]
  | .dict ps => by rw [beq, beqPairs_refl ps]
  | .closure _ _ _ _ _ => by simp [beq]
  | .primitive f vs => by simp [beq, beqAll_refl vs]

theorem beqAll_refl : ∀ vs : List Value, beqAll vs vs = true
  | [] => rfl
  | v :: vs => by rw [beqAll, beq_refl v, beqAll_refl vs, Bool.and_true]

theorem beqPairs_refl : ∀ ps : List (Value × Value), beqPairs ps ps = true
  | [] => rfl
  | (k, v) :: ps => by rw [beqPairs, beq_refl k, beq_refl v, beqPairs_refl ps, Bool.and_true, Bool.and_true]

end

/-! ## Symmetry -/

mutual

theorem beq_comm : ∀ a b : Value, beq a b = beq b a
  | .unit, b => by cases b <;> rfl
  | .int m, b => by
    cases b with
    | int n => exact BEq.comm
    | _ => rfl
  | .bool p, b => by
    cases b with
    | bool q => exact BEq.comm
    | _ => rfl
  | .str s, b => by
    cases b with
    | str t => exact BEq.comm
    | _ => rfl
  | .list as, b => by
    cases b with
    | list bs => rw [beq, beq, beqAll_comm as bs]
    | _ => rfl
  | .dict ps, b => by
    cases b with
    | dict qs => rw [beq, beq, beqPairs_comm ps qs]
    | _ => rfl
  | .closure i f _ _ _, b => by
    cases b with
    | closure j g => rw [beq, beq, BEq.comm (a := i), BEq.comm (a := f.isSome)]
    | _ => rfl
  | .primitive f as, b => by
    cases b with
    | primitive g bs => rw [beq, beq, beqAll_comm as bs, BEq.comm (a := f)]
    | _ => rfl

theorem beqAll_comm : ∀ as bs : List Value, beqAll as bs = beqAll bs as
  | [], bs => by cases bs <;> rfl
  | _ :: _, [] => rfl
  | a :: as, b :: bs => by rw [beqAll, beqAll, beq_comm a b, beqAll_comm as bs]

theorem beqPairs_comm : ∀ ps qs : List (Value × Value), beqPairs ps qs = beqPairs qs ps
  | [], qs => by cases qs <;> rfl
  | _ :: _, [] => rfl
  | (k, v) :: ps, (l, w) :: qs => by rw [beqPairs, beqPairs, beq_comm k l, beq_comm v w, beqPairs_comm ps qs]

end

/-! ## Transitivity -/

mutual

theorem beq_trans : ∀ {a b c : Value}, beq a b = true → beq b c = true → beq a c = true
  | .unit, b, c, hab, hbc => by
    cases b with
    | unit => exact hbc
    | _ => cases hab
  | .int m, b, c, hab, hbc => by
    cases b with
    | int n => rw [eq_of_beq (show (m == n) = true from hab)]; exact hbc
    | _ => cases hab
  | .bool p, b, c, hab, hbc => by
    cases b with
    | bool q => rw [eq_of_beq (show (p == q) = true from hab)]; exact hbc
    | _ => cases hab
  | .str s, b, c, hab, hbc => by
    cases b with
    | str t => rw [eq_of_beq (show (s == t) = true from hab)]; exact hbc
    | _ => cases hab
  | .list as, b, c, hab, hbc => by
    cases b with
    | list bs =>
      cases c with
      | list cs => exact beqAll_trans (show beqAll as bs = true from hab) hbc
      | _ => cases hbc
    | _ => cases hab
  | .dict ps, b, c, hab, hbc => by
    cases b with
    | dict qs =>
      cases c with
      | dict rs => exact beqPairs_trans (show beqPairs ps qs = true from hab) hbc
      | _ => cases hbc
    | _ => cases hab
  | .closure i f _ _ _, b, c, hab, hbc => by
    cases b with
    | closure j g =>
      cases c with
      | closure k h =>
        simp only [beq, Bool.and_eq_true, beq_iff_eq] at hab hbc ⊢
        exact ⟨hab.1.trans hbc.1, hab.2.trans hbc.2⟩
      | _ => cases hbc
    | _ => cases hab
  | .primitive f as, b, c, hab, hbc => by
    cases b with
    | primitive g bs =>
      cases c with
      | primitive h cs =>
        simp only [beq, Bool.and_eq_true, beq_iff_eq] at hab hbc ⊢
        exact ⟨hab.1.trans hbc.1, beqAll_trans hab.2 hbc.2⟩
      | _ => cases hbc
    | _ => cases hab

theorem beqAll_trans : ∀ {as bs cs : List Value}, beqAll as bs = true → beqAll bs cs = true → beqAll as cs = true
  | [], [], _, _, hbc => hbc
  | a :: as, b :: bs, c :: cs, hab, hbc => by
    simp only [beqAll, Bool.and_eq_true] at hab hbc ⊢
    exact ⟨beq_trans hab.1 hbc.1, beqAll_trans hab.2 hbc.2⟩

theorem beqPairs_trans : ∀ {ps qs rs : List (Value × Value)}, beqPairs ps qs = true → beqPairs qs rs = true →
    beqPairs ps rs = true
  | [], [], _, _, hqr => hqr
  | (k, v) :: ps, (l, w) :: qs, (m, u) :: rs, hpq, hqr => by
    simp only [beqPairs, Bool.and_eq_true] at hpq hqr ⊢
    exact ⟨⟨beq_trans hpq.1.1 hqr.1.1, beq_trans hpq.1.2 hqr.1.2⟩, beqPairs_trans hpq.2 hqr.2⟩

end

/-- **Equality of values is an equivalence.** -/
instance : EquivBEq Value where
  rfl := beq_refl _
  symm h := (beq_comm _ _).trans h
  trans := beq_trans

end Treewalk.Value
