import Mathlib.Algebra.Order.Ring.Int
import Mathlib.Tactic.FinCases
import Treewalk.Proofs.Fuel

/-!
# Arithmetic

The operators on integers are compared with the operations of the integers of whatever size (`Operator.Exact`). Their
results fit in 64 bits or are refused.

* The quotient goes toward zero, and the remainder has the sign of the dividend (`Truncates`). Of two integers that fit,
  the quotient does not fit only for the lowest one and `-1` (`fits_tdiv_iff`).
* What an operator gives is exact (`Operator.exact_of_ok`), so **no value has wrapped around** in the evaluation of an
  expression that is built from operators (`Computes.of_eval`).

Together: **arithmetic is exact or refused** (`arithmetic_exact_or_refused`).
-/

namespace Treewalk

open Run

/-! ## Integers that fit -/

section Range

/-- The integers that 64 bits hold. -/
def Fits (n : Int) : Prop :=
  -2 ^ 63 ≤ n ∧ n < 2 ^ 63

/-- `q` and `r` are the quotient and the remainder of `a` by `b`. The quotient goes toward zero. -/
structure Truncates (a b q r : Int) : Prop where
  sum : a = q * b + r
  remainder_lt : |r| < |b|
  sign : r = 0 ∨ r.sign = a.sign
  toward_zero : |q * b| ≤ |a|

theorem fits_toInt (n : Int64) : Fits n.toInt :=
  ⟨n.le_toInt, n.toInt_lt⟩

variable {operation : String} {a b n : Int}

theorem fit_of_fits (operation : String) (h : Fits n) : ∃ m : Int64, fit operation n = .ok (.int m) ∧ m.toInt = n := by
  refine ⟨Int64.ofInt n, ?_, Int64.toInt_ofInt_of_le h.1 h.2⟩
  unfold fit
  rw [if_pos]
  exact ⟨h.1, h.2⟩

theorem fit_of_not_fits (h : ¬Fits n) : fit operation n = .error (.overflow operation) := by
  unfold fit
  rw [if_neg]
  exact h

/-- What is given fits, and is given as it is. -/
theorem exact_of_fit_ok {v : Value} (h : fit operation n = .ok v) : ∃ m : Int64, v = .int m ∧ m.toInt = n := by
  by_cases hn : Fits n
  · obtain ⟨m, hm, heq⟩ := fit_of_fits operation hn
    rw [hm] at h
    cases h
    exact ⟨m, rfl, heq⟩
  · rw [fit_of_not_fits hn] at h
    cases h

/-- Only the lowest integer has an opposite that does not fit. -/
theorem fits_neg_iff (ha : Fits a) : Fits (-a) ↔ a ≠ -2 ^ 63 := by
  unfold Fits at ha ⊢
  omega

/-- A quotient of integers that fit does so as well, but for that of the lowest one by `-1`. -/
theorem fits_tdiv_iff (ha : Fits a) (hb : b ≠ 0) : Fits (a.tdiv b) ↔ ¬(a = -2 ^ 63 ∧ b = -1) := by
  by_cases hone : b.natAbs = 1
  · rcases Int.natAbs_eq_natAbs_iff.1 (hone.trans Int.natAbs_one.symm) with rfl | rfl
    · rw [Int.tdiv_one]
      exact ⟨fun _ h => absurd h.2 (by decide), fun _ => ha⟩
    · rw [Int.tdiv_neg, Int.tdiv_one, fits_neg_iff ha, and_iff_left rfl]
  · -- the quotient has at most half the size of the dividend
    have hhalf : (a.tdiv b).natAbs ≤ a.natAbs / 2 := by
      rw [Int.natAbs_tdiv]
      exact Nat.div_le_div_left (by omega) (by decide)
    have hne : b ≠ -1 := by
      rintro rfl
      exact hone rfl
    unfold Fits at ha ⊢
    refine ⟨fun _ h => hne h.2, fun _ => ?_⟩
    omega

theorem fits_tmod (ha : Fits a) (b : Int) : Fits (a.tmod b) := by
  have hle : (a.tmod b).natAbs ≤ a.natAbs := by
    rw [Int.natAbs_tmod]
    exact Nat.mod_le _ _
  unfold Fits at ha ⊢
  rcases Int.le_total 0 a with hpos | hneg
  · have := Int.tmod_nonneg b hpos
    omega
  · have : 0 ≤ (-a).tmod b := Int.tmod_nonneg b (by omega)
    rw [Int.neg_tmod] at this
    omega

theorem truncates_tdiv_tmod (a : Int) (hb : b ≠ 0) : Truncates a b (a.tdiv b) (a.tmod b) where
  sum := by rw [Int.mul_comm, Int.mul_tdiv_add_tmod]
  remainder_lt := by
    rw [Int.abs_eq_natAbs, Int.abs_eq_natAbs, Int.natAbs_tmod]
    exact Int.ofNat_lt.2 (Nat.mod_lt _ (Int.natAbs_pos.2 hb))
  sign := by
    rw [← Int.sign_eq_zero_iff_zero, Int.sign_tmod]
    split
    · exact Or.inl rfl
    · exact Or.inr rfl
  toward_zero := by
    rw [Int.abs_eq_natAbs, Int.abs_eq_natAbs, Int.natAbs_mul, Int.natAbs_tdiv]
    exact Int.ofNat_le.2 (Nat.div_mul_le_self _ _)

end Range

/-! ## Operators -/

section Operators

/-- What an operator gives on integers of whatever size. -/
def Operator.Exact (op : Operator) (a b n : Int) : Prop :=
  match op with
  | .add => n = a + b
  | .sub => n = a - b
  | .mul => n = a * b
  | .div => ∃ r, Truncates a b n r
  | .mod => ∃ q, Truncates a b q n
  | _ => False

variable {op : Operator} {a b : Int64}

theorem toInt_ne_zero (hb : b ≠ 0) : b.toInt ≠ 0 :=
  fun h => hb (Int64.toInt_inj.1 (h.trans Int64.toInt_zero.symm))

theorem div_of_ne_zero (hb : b ≠ 0) :
    Operator.div.apply (.int a) (.int b) = fit "division" (a.toInt.tdiv b.toInt) :=
  if_neg hb

theorem mod_of_ne_zero (hb : b ≠ 0) : Operator.mod.apply (.int a) (.int b) =
    (fit "modulo" (a.toInt.tdiv b.toInt) >>= fun _ => fit "modulo" (a.toInt.tmod b.toInt)) :=
  if_neg hb

/-- Sums, differences and products are given if they fit, and are refused otherwise. -/
theorem Operator.apply_ring (hop : op ∈ [.add, .sub, .mul]) {n : Int} (hn : op.Exact a.toInt b.toInt n) :
    ∃ operation, op.apply (.int a) (.int b) = fit operation n := by
  fin_cases hop
  · cases hn
    exact ⟨"addition", rfl⟩
  · cases hn
    exact ⟨"subtraction", rfl⟩
  · cases hn
    exact ⟨"multiplication", rfl⟩

/-- Division and remainder, where they are defined and the quotient fits. -/
theorem exists_quotient (hb : b ≠ 0) (hlowest : ¬(a.toInt = -2 ^ 63 ∧ b.toInt = -1)) :
    ∃ q r : Int64, Operator.div.apply (.int a) (.int b) = .ok (.int q) ∧
      Operator.mod.apply (.int a) (.int b) = .ok (.int r) ∧ Truncates a.toInt b.toInt q.toInt r.toInt := by
  have hb' := toInt_ne_zero hb
  have hquotient := (fits_tdiv_iff (fits_toInt a) hb').2 hlowest
  obtain ⟨q, hq, hq'⟩ := fit_of_fits "division" hquotient
  obtain ⟨_, hmodulo, _⟩ := fit_of_fits "modulo" hquotient
  obtain ⟨r, hr, hr'⟩ := fit_of_fits "modulo" (fits_tmod (fits_toInt a) b.toInt)
  refine ⟨q, r, ?_, ?_, ?_⟩
  · rw [div_of_ne_zero hb, hq]
  · rw [mod_of_ne_zero hb, hmodulo]
    exact hr
  · rw [hq', hr']
    exact truncates_tdiv_tmod a.toInt hb'

/-- A quotient that does not fit is refused, and so is its remainder. -/
theorem overflow_of_lowest (hop : op ∈ [.div, .mod]) (hlowest : a.toInt = -2 ^ 63 ∧ b.toInt = -1) :
    ∃ operation, op.apply (.int a) (.int b) = .error (.overflow operation) := by
  have hb : b ≠ 0 := by
    rintro rfl
    exact absurd hlowest.2 (by decide)
  have hquotient : ¬Fits (a.toInt.tdiv b.toInt) :=
    fun hfits => (fits_tdiv_iff (fits_toInt a) (toInt_ne_zero hb)).1 hfits hlowest
  fin_cases hop
  · exact ⟨"division", by rw [div_of_ne_zero hb, fit_of_not_fits hquotient]⟩
  · exact ⟨"modulo", by rw [mod_of_ne_zero hb, fit_of_not_fits hquotient]; rfl⟩

/-- How division and remainder fail. -/
theorem divides_or_refuses (a b : Int64) :
    (Operator.div.apply (.int a) (.int b) = .error .divisionByZero ↔ b = 0) ∧
    (Operator.mod.apply (.int a) (.int b) = .error .moduloByZero ↔ b = 0) ∧
    ∀ op ∈ [Operator.div, .mod], (∃ operation, op.apply (.int a) (.int b) = .error (.overflow operation)) ↔
      a.toInt = -2 ^ 63 ∧ b.toInt = -1 := by
  by_cases hb : b = 0
  · subst hb
    refine ⟨iff_of_true rfl rfl, iff_of_true rfl rfl, fun op hop => iff_of_false ?_ ?_⟩
    · rintro ⟨operation, h⟩
      fin_cases hop <;> cases h
    · exact fun h => absurd h.2 (by decide)
  · by_cases hlowest : a.toInt = -2 ^ 63 ∧ b.toInt = -1
    · obtain ⟨_, hdiv⟩ := overflow_of_lowest (show Operator.div ∈ _ by simp) hlowest
      obtain ⟨_, hmod⟩ := overflow_of_lowest (show Operator.mod ∈ _ by simp) hlowest
      refine ⟨iff_of_false ?_ hb, iff_of_false ?_ hb, fun op hop => ⟨fun _ => hlowest, overflow_of_lowest hop⟩⟩
      · rw [hdiv]
        exact nofun
      · rw [hmod]
        exact nofun
    · obtain ⟨q, r, hdiv, hmod, _⟩ := exists_quotient hb hlowest
      refine ⟨iff_of_false ?_ hb, iff_of_false ?_ hb, fun op hop => iff_of_false ?_ hlowest⟩
      · rw [hdiv]
        exact nofun
      · rw [hmod]
        exact nofun
      · rintro ⟨operation, h⟩
        fin_cases hop
        · cases hdiv.symm.trans h
        · cases hmod.symm.trans h

/-- An operator of arithmetic gives something for two integers only. -/
theorem Operator.int_of_ok {u v w : Value} (hop : op ∈ Operator.arithmetic) (h : op.apply u v = .ok w) :
    ∃ a b : Int64, u = .int a ∧ v = .int b := by
  cases u with
  | int a =>
    cases v with
    | int b => exact ⟨a, b, rfl, rfl⟩
    | _ => fin_cases hop <;> cases h
  | _ => fin_cases hop <;> cases h

/-- **What an operator of arithmetic gives is exact.** -/
theorem Operator.exact_of_ok {w : Value} (hop : op ∈ Operator.arithmetic) (h : op.apply (.int a) (.int b) = .ok w) :
    ∃ n : Int64, w = .int n ∧ op.Exact a.toInt b.toInt n.toInt := by
  have hring : ∀ {n : Int}, op ∈ [.add, .sub, .mul] → op.Exact a.toInt b.toInt n →
      ∃ n : Int64, w = .int n ∧ op.Exact a.toInt b.toInt n.toInt := by
    intro n hop hn
    obtain ⟨operation, hfit⟩ := Operator.apply_ring hop hn
    obtain ⟨m, rfl, hm⟩ := exact_of_fit_ok (hfit.symm.trans h)
    exact ⟨m, rfl, hm.symm ▸ hn⟩
  obtain ⟨hdiv, hmod, hoverflow⟩ := divides_or_refuses a b
  -- a quotient that is given is that of a divisor that is not zero, and it fits
  have hquotient : op ∈ [.div, .mod] → b ≠ 0 ∧ ¬(a.toInt = -2 ^ 63 ∧ b.toInt = -1) := by
    intro hop
    refine ⟨fun hb => ?_, fun hlowest => ?_⟩
    · fin_cases hop
      · cases h.symm.trans (hdiv.2 hb)
      · cases h.symm.trans (hmod.2 hb)
    · obtain ⟨operation, hrefused⟩ := (hoverflow op hop).2 hlowest
      cases h.symm.trans hrefused
  fin_cases hop
  · exact hring (n := a.toInt + b.toInt) (by simp) rfl
  · exact hring (n := a.toInt - b.toInt) (by simp) rfl
  · exact hring (n := a.toInt * b.toInt) (by simp) rfl
  · obtain ⟨hb, hlowest⟩ := hquotient (by simp)
    obtain ⟨q, r, hq, _, htruncates⟩ := exists_quotient hb hlowest
    cases h.symm.trans hq
    exact ⟨q, rfl, r.toInt, htruncates⟩
  · obtain ⟨hb, hlowest⟩ := hquotient (by simp)
    obtain ⟨q, r, _, hr, htruncates⟩ := exists_quotient hb hlowest
    cases h.symm.trans hr
    exact ⟨r, rfl, q.toInt, htruncates⟩

/-- The opposite of an integer is given, but for the lowest one. -/
theorem neg_int (a : Int64) :
    (a.toInt ≠ -2 ^ 63 → ∃ n : Int64, Unary.neg.apply (.int a) = .ok (.int n) ∧ n.toInt = -a.toInt) ∧
      (a.toInt = -2 ^ 63 → Unary.neg.apply (.int a) = .error (.overflow "negation")) := by
  have hfits := fits_neg_iff (fits_toInt a)
  exact ⟨fun h => fit_of_fits "negation" (hfits.2 h), fun h => fit_of_not_fits fun hneg => hfits.1 hneg h⟩

theorem neg_of_ok {u v : Value} (h : Unary.neg.apply u = .ok v) :
    ∃ a n : Int64, u = .int a ∧ v = .int n ∧ n.toInt = -a.toInt := by
  cases u with
  | int a =>
    obtain ⟨n, rfl, hn⟩ := exact_of_fit_ok (n := -a.toInt) h
    exact ⟨a, n, rfl, rfl, hn⟩
  | _ => cases h

end Operators

/-! ## Expressions -/

section Expressions

/-- An expression whose value is found by an operation on integers. -/
def Expr.isArithmetic : Expr → Bool
  | .neg _ => true
  | .operator op _ _ => op ∈ Operator.arithmetic
  | _ => false

/-- The integer that an expression stands for, if its operators are those of the integers of whatever size. What the
operators are applied to in the end is evaluated. -/
inductive Computes (config : Config) (env : Env) : Expr → CallStack → Store → Int → Store → Prop
  | operand {e : Expr} {s : CallStack} {σ τ : Store} {n : Int64} : e.isArithmetic = false →
      Evaluates config e env s σ (.done (.int n) τ) → Computes config env e s σ n.toInt τ
  | neg {e : Expr} {s : CallStack} {σ τ : Store} {n : Int} : Computes config env e (s.push (.neg e)) σ n τ →
      Computes config env (.neg e) s σ (-n) τ
  | operator {op : Operator} {l r : Expr} {s : CallStack} {σ τ υ : Store} {a b n : Int} : op ∈ Operator.arithmetic →
      Computes config env l (s.push (.operator op l r)) σ a τ →
      Computes config env r (s.push (.operator op l r)) τ b υ → op.Exact a b n →
      Computes config env (.operator op l r) s σ n υ

variable {config : Config} {env : Env} {k : Nat} {e l r : Expr} {s : CallStack} {σ τ : Store} {v : Value}

theorem Run.of_ofExcept_done {α : Type} {x : Except Cause α} {a : α} (h : ofExcept x σ = .done a τ) :
    x = .ok a ∧ σ = τ := by
  cases x with
  | error cause => cases h
  | ok b =>
    cases h
    exact ⟨rfl, rfl⟩

/-- The value of a unary operation comes from that of its operand. -/
theorem exists_of_eval_unary {op : Unary} (h : eval config (k + 1) (.unary op e) env s σ = .done v τ) :
    ∃ u, eval config k e env (s.push (.unary op e)) σ = .done u τ ∧ op.apply u = .ok v := by
  obtain ⟨u, υ, hu, hv⟩ := exists_of_bind_done (of_inFrame_done h)
  obtain ⟨happly, rfl⟩ := of_ofExcept_done hv
  exact ⟨u, hu, happly⟩

/-- The value of an operator of arithmetic comes from those of its operands, which are evaluated from left to right. -/
theorem exists_of_eval_operator {op : Operator} (hop : op ∈ Operator.arithmetic)
    (h : eval config (k + 1) (.operator op l r) env s σ = .done v τ) :
    ∃ a b υ, eval config k l env (s.push (.operator op l r)) σ = .done a υ ∧
      eval config k r env (s.push (.operator op l r)) υ = .done b τ ∧ op.apply a b = .ok v := by
  obtain ⟨a, υ, ha, hrest⟩ := exists_of_bind_done (of_inFrame_done h)
  obtain ⟨b, φ, hb, hrest⟩ := exists_of_bind_done hrest
  -- arithmetic tests no identities, so nothing is noted
  have hnote : noteIdentityTest ((Binary.operator op).testsIdentity a b) φ = .done () φ := by
    have htests : (Binary.operator op).testsIdentity a b = false := by fin_cases hop <;> rfl
    rw [htests, noteIdentityTest, Bool.or_false]
  obtain ⟨_, _, hnoted, hv⟩ := exists_of_bind_done hrest
  cases hnote.symm.trans hnoted
  obtain ⟨happly, rfl⟩ := of_ofExcept_done hv
  exact ⟨a, b, υ, ha, hb, happly⟩

/-- **The integer that an evaluation finds is the one that the expression stands for.** By induction on the fuel, which
follows the expression down to what the operators are applied to. -/
theorem Computes.of_eval {n : Int64} (h : eval config k e env s σ = .done (.int n) τ) :
    Computes config env e s σ n.toInt τ := by
  induction k generalizing e s σ τ n with
  | zero => cases h
  | succ k ih =>
    cases harith : e.isArithmetic with
    | false => exact .operand harith ⟨nofun, k + 1, h⟩
    | true =>
      cases e with
      | unary op e =>
        cases op with
        | neg =>
          obtain ⟨u, hu, happly⟩ := exists_of_eval_unary h
          obtain ⟨a, m, rfl, hm, heq⟩ := neg_of_ok happly
          cases hm
          rw [heq]
          exact .neg (ih hu)
        | _ => cases harith
      | binary op l r =>
        cases op with
        | operator op =>
          have hop : op ∈ Operator.arithmetic := of_decide_eq_true harith
          obtain ⟨u, v, υ, hu, hv, happly⟩ := exists_of_eval_operator hop h
          obtain ⟨a, b, rfl, rfl⟩ := Operator.int_of_ok hop happly
          obtain ⟨m, hm, hexact⟩ := Operator.exact_of_ok hop happly
          cases hm
          exact .operator hop (ih hu) (ih hv) hexact
        | _ => cases harith
      | _ => cases harith

/-- An arithmetic expression has no other values than integers. -/
theorem exists_int_of_isArithmetic (harith : e.isArithmetic = true) (h : eval config k e env s σ = .done v τ) :
    ∃ n : Int64, v = .int n := by
  cases k with
  | zero => cases h
  | succ k =>
    cases e with
    | unary op e =>
      cases op with
      | neg =>
        obtain ⟨u, _, happly⟩ := exists_of_eval_unary h
        obtain ⟨_, n, _, rfl, _⟩ := neg_of_ok happly
        exact ⟨n, rfl⟩
      | _ => cases harith
    | binary op l r =>
      cases op with
      | operator op =>
        have hop : op ∈ Operator.arithmetic := of_decide_eq_true harith
        obtain ⟨u, w, _, _, _, happly⟩ := exists_of_eval_operator hop h
        obtain ⟨a, b, rfl, rfl⟩ := Operator.int_of_ok hop happly
        obtain ⟨n, rfl, _⟩ := Operator.exact_of_ok hop happly
        exact ⟨n, rfl⟩
      | _ => cases harith
    | _ => cases harith

end Expressions

/-! ## Exact or refused -/

section Main

/-- **Arithmetic is exact or refused**, for all integers of 64 bits. So an arithmetic expression, however large, has no
value but the integer that it stands for. -/
theorem arithmetic_exact_or_refused :
    (∀ op ∈ [Operator.add, .sub, .mul], ∀ (a b : Int64) (n : Int), op.Exact a.toInt b.toInt n →
      (Fits n → ∃ m : Int64, op.apply (.int a) (.int b) = .ok (.int m) ∧ m.toInt = n) ∧
      (¬Fits n → ∃ operation, op.apply (.int a) (.int b) = .error (.overflow operation))) ∧
    (∀ a b : Int64,
      (Operator.div.apply (.int a) (.int b) = .error .divisionByZero ↔ b = 0) ∧
      (Operator.mod.apply (.int a) (.int b) = .error .moduloByZero ↔ b = 0) ∧
      (∀ op ∈ [Operator.div, .mod], (∃ operation, op.apply (.int a) (.int b) = .error (.overflow operation)) ↔
        a.toInt = -2 ^ 63 ∧ b.toInt = -1) ∧
      (b ≠ 0 → ¬(a.toInt = -2 ^ 63 ∧ b.toInt = -1) →
        ∃ q r : Int64, Operator.div.apply (.int a) (.int b) = .ok (.int q) ∧
          Operator.mod.apply (.int a) (.int b) = .ok (.int r) ∧ Truncates a.toInt b.toInt q.toInt r.toInt)) ∧
    (∀ a : Int64,
      (a.toInt ≠ -2 ^ 63 → ∃ n : Int64, Unary.neg.apply (.int a) = .ok (.int n) ∧ n.toInt = -a.toInt) ∧
      (a.toInt = -2 ^ 63 → Unary.neg.apply (.int a) = .error (.overflow "negation"))) ∧
    ∀ (config : Config) (e : Expr) (env : Env) (s : CallStack) (σ τ : Store) (v : Value), e.isArithmetic = true →
      Evaluates config e env s σ (.done v τ) → ∃ n : Int64, v = .int n ∧ Computes config env e s σ n.toInt τ := by
  refine ⟨fun op hop a b n hn => ?_, fun a b => ?_, neg_int, ?_⟩
  · obtain ⟨operation, hfit⟩ := Operator.apply_ring hop hn
    rw [hfit]
    exact ⟨fit_of_fits operation, fun h => ⟨operation, fit_of_not_fits h⟩⟩
  · obtain ⟨hdiv, hmod, hoverflow⟩ := divides_or_refuses a b
    exact ⟨hdiv, hmod, hoverflow, exists_quotient⟩
  · rintro config e env s σ τ v harith ⟨-, k, hk⟩
    obtain ⟨n, rfl⟩ := exists_int_of_isArithmetic harith hk
    exact ⟨n, rfl, .of_eval hk⟩

/-- The remainder of the lowest integer by `-1` is refused together with the quotient, though it would be zero. -/
example : Operator.mod.apply (.int Int64.minValue) (.int (-1)) = .error (.overflow "modulo") := rfl

end Main

end Treewalk
