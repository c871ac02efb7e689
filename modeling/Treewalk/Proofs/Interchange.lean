import Treewalk.Proofs.Audits
import Treewalk.Proofs.Hosts
import Treewalk.Proofs.ValueEquality

/-!
# Equal values are interchangeable

Equality compares functions by their identities only. Where an identity stands for one function, values that are equal
look the same, and an operation on one answers like the operation on the other (`Ledger.EqualityLaws`).

An identity does stand for one function among all values of a run: a call goes on with the ledger of the store it starts
in (`accounts_perform`), and the empty store has one. Hence **equality is a congruence on the values of a run**
(`equality_is_congruence`).
-/

namespace Treewalk

open Run

/-! ## Calls -/

section Calls

variable {I : Interpreter} {J : Ledger → Interpreter} {L : Ledger} {call : Call}

/-- All that a call is given is entered in the ledger. -/
def Call.EnteredIn (L : Ledger) : Call → Prop
  | .eval _ env _ | .batch _ env => Env.EnteredIn L env
  | .apply callee args _ => ∀ v ∈ callee :: args, v.EnteredIn L

/-- The value of a result, if it is one, is entered in the ledger. -/
def Result.EnteredIn (L : Ledger) (result : Result) : Prop :=
  ∀ v, result = .ok v → v.EnteredIn L

theorem Result.EnteredIn.lasts : Ledger.Lasts Result.EnteredIn :=
  fun _ _ _ hL h v hv => (h v hv).mono hL

theorem Accounts.attempt {m : Run Value} {M : Ledger → Run Value} (h : Accounts L Value.EnteredIn m M) :
    Accounts L Result.EnteredIn m.attempt fun K => (M K).attempt := by
  intro σ hσ
  obtain ⟨L', hL, hleaves, haudit⟩ := h σ hσ
  simp only [Run.attempt]
  refine ⟨L', hL, ?_, fun K hK => by rw [haudit K hK]⟩
  generalize m σ = outcome at hleaves
  cases hleaves with
  | outOfFuel => exact .outOfFuel
  | done hv hσ' =>
    refine .done ?_ hσ'
    rintro _ ⟨⟩
    exact hv
  | failed hσ' => exact .done (fun _ => nofun) hσ'

/-- **A call goes on with the ledger** of what it is given. -/
theorem accounts_perform (hI : Audits I J) (hcall : call.EnteredIn L) :
    Accounts L (fun L' results => ∀ result ∈ results, Result.EnteredIn L' result) (call.perform I)
      fun K => call.perform (J K) := by
  cases call with
  | eval e env stack =>
    refine Accounts.bind (hI.eval hcall).attempt fun L' _ result hresult => Accounts.pure ?_
    exact List.forall_mem_singleton.2 hresult
  | apply callee args stack =>
    obtain ⟨hcallee, hargs⟩ := List.forall_mem_cons.1 hcall
    refine Accounts.bind (hI.apply hcallee hargs).attempt fun L' _ result hresult => Accounts.pure ?_
    exact List.forall_mem_singleton.2 hresult
  | batch es env =>
    refine Accounts.mapM (P := fun L' _ => Env.EnteredIn L' env) (fun _ _ _ hL h => h.mono hL) Result.EnteredIn.lasts
      (fun _ _ => hcall) fun L' _ e henv => (hI.eval henv).attempt

theorem Store.entered_empty : ({} : Store).EnteredIn [] where
  count := rfl
  cells {cell v} hv := by simp [Store.memo?] at hv

theorem Env.entered_withBuiltins : Env.EnteredIn [] Env.withBuiltins := by
  refine Env.EnteredIn.bindAll (fun _ => nofun) fun p hp => ?_
  obtain ⟨b, _, rfl⟩ := List.mem_map.1 hp
  exact .primitive fun _ => nofun

end Calls

/-! ## Laws of equality -/

section Laws

/-- Values that are entered in the ledger and equal. -/
def Ledger.Equal (L : Ledger) (a b : Value) : Prop :=
  a.EnteredIn L ∧ b.EnteredIn L ∧ (a == b) = true

/-- Operations answer alike: with equal values, or with the same cause. -/
abbrev EqualAnswers : Except Cause Value → Except Cause Value → Prop :=
  SameAnswer fun u v => (u == v) = true

/-- On the values that are entered in a ledger, equality is an equivalence, equal values look the same, and an operand
can be replaced by an equal one. -/
structure Ledger.EqualityLaws (L : Ledger) : Prop where
  refl : ∀ a : Value, a.EnteredIn L → L.Equal a a
  symm : ∀ a b, L.Equal a b → L.Equal b a
  trans : ∀ a b c, L.Equal a b → L.Equal b c → L.Equal a c
  typeName : ∀ a b, L.Equal a b → a.typeName = b.typeName
  display : ∀ a b, L.Equal a b → a.display = b.display
  unary : ∀ (op : Unary) (a b : Value), L.Equal a b → EqualAnswers (op.apply a) (op.apply b)
  length : ∀ a b, L.Equal a b → EqualAnswers a.length b.length
  binary : ∀ (op : Binary) (a a' b b' : Value), L.Equal a a' → L.Equal b b' →
    EqualAnswers (op.apply a b) (op.apply a' b')
  insert : ∀ key key' a a' b b', L.Equal key key' → L.Equal a a' → L.Equal b b' →
    EqualAnswers (Value.insert key a b) (Value.insert key' a' b')
  compare : ∀ a a' b b', L.Equal a a' → L.Equal b b' → a.compare? b = a'.compare? b'
  /-- Equality has an answer for any two values, and inequality has the opposite one. -/
  ne : ∀ a b : Value, ∃ same : Bool,
    Operator.eq.apply a b = .ok (.bool same) ∧ Operator.ne.apply a b = .ok (.bool !same)

theorem Ledger.Equal.eq {L : Ledger} {a b : Value} (h : L.Equal a b) : a = b :=
  h.1.eq h.2.1 h.2.2

theorem EqualAnswers.refl (x : Except Cause Value) : EqualAnswers x x := by
  cases x with
  | ok v => exact .ok BEq.rfl
  | error cause => exact .error cause

/-- Equal values are the same, so nothing tells them apart. -/
theorem Ledger.equalityLaws (L : Ledger) : L.EqualityLaws where
  refl _ h := ⟨h, h, BEq.rfl⟩
  symm _ _ h := ⟨h.2.1, h.1, BEq.symm h.2.2⟩
  trans _ _ _ h h' := ⟨h.1, h'.2.1, BEq.trans h.2.2 h'.2.2⟩
  typeName _ _ h := by rw [h.eq]
  display _ _ h := by rw [h.eq]
  unary _ _ _ h := by
    rw [h.eq]
    exact .refl _
  length _ _ h := by
    rw [h.eq]
    exact .refl _
  binary _ _ _ _ _ ha hb := by
    rw [ha.eq, hb.eq]
    exact .refl _
  insert _ _ _ _ _ _ hkey ha hb := by
    rw [hkey.eq, ha.eq, hb.eq]
    exact .refl _
  compare _ _ _ _ ha hb := by rw [ha.eq, hb.eq]
  ne a b := ⟨a == b, rfl, rfl⟩

/-- **Equality is a congruence on the values of a run.** A call goes on with the ledger of its store, which has all that
it handles and leaves, and what is entered in one ledger obeys the laws. -/
theorem equality_is_congruence :
    (({} : Store).EnteredIn [] ∧ Env.EnteredIn [] Env.withBuiltins) ∧
    (∀ (L : Ledger) (σ : Store) (call : Call), σ.EnteredIn L → call.EnteredIn L →
      ∀ (alarm : Failure) (config : Config) (n : Nat), ∃ L' : Ledger, L <+: L' ∧
        call.perform (audited L' alarm config n) σ = call.perform (interpreter config n) σ ∧
        (call.perform (interpreter config n) σ).Leaves L' fun L' results =>
          ∀ result ∈ results, Result.EnteredIn L' result) ∧
    ∀ L : Ledger, L.EqualityLaws := by
  refine ⟨⟨Store.entered_empty, Env.entered_withBuiltins⟩, ?_, Ledger.equalityLaws⟩
  intro L σ call hσ hcall alarm config n
  obtain ⟨L', hL, hleaves, haudit⟩ := accounts_perform (audits_audited alarm config n) hcall σ hσ
  exact ⟨L', hL, haudit L' List.prefix_rfl, hleaves⟩

/-- A function that is looked up twice: the run starts in the empty ledger and leaves one that has the function. -/
theorem equality_is_congruence_function :
    let f : Value := .closure 0 none ["x"] (.symbol "x") Env.withBuiltins
    let e : Expr := .letIn (.eager [("f", .lambda ["x"] (.symbol "x"))]) (.list [.symbol "f", .symbol "f"])
    let call : Call := .eval e Env.withBuiltins CallStack.empty
    ({} : Store).EnteredIn [] ∧ call.EnteredIn [] ∧
      call.perform (interpreter ⟨none, .byNeed⟩ 3) {} = .done [.ok (.list [f, f])] { nextId := 1 } ∧
      ∃ L : Ledger, L.EqualityLaws ∧ L.Equal (.list [f, f]) (.list [f, f]) := by
  intro f e call
  obtain ⟨⟨hσ, henv⟩, hrun, hlaws⟩ := equality_is_congruence
  have hdone : call.perform (interpreter ⟨none, .byNeed⟩ 3) {} = .done [.ok (.list [f, f])] { nextId := 1 } := rfl
  obtain ⟨L, -, -, hleaves⟩ := hrun [] {} call hσ henv ⟨.emptyFold, none⟩ ⟨none, .byNeed⟩ 3
  rw [hdone] at hleaves
  cases hleaves with
  | done hresults _ =>
    have hlist := hresults _ List.mem_cons_self _ rfl
    exact ⟨hσ, henv, hdone, L, hlaws L, (hlaws L).refl _ hlist⟩

end Laws

end Treewalk
