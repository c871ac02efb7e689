import Treewalk.Proofs.SimulationStep

/-!
# Paraphrases

A pipe is an application to one argument, and an eager `let` is the application of a function whose parameters are the
bound names. `Expr.Desugars` relates a program to any version of it in which some of its pipes and eager `let`s, however
deep they stand, are written as applications.

Programs that are related so, in either direction, are paraphrases of each other (`Expr.Paraphrase`). Their runs have
values whose functions and thunks hold paraphrases (`Value.Paraphrase`). The application of a function takes an identity
that the `let` does not take, so the identities of functions differ; they stand for each other one to one (`Pairing`).
Memo cells are numbered alike. `paraphrased` is the simulation between the two runs.
-/

namespace Treewalk

open Run Filter

open List (Forall₂)

/-! ## Programs -/

section Programs

/-- A pipe or an eager `let`, and the application that it stands for, with parts that are related by `X`. -/
inductive Expr.Unfolds (X : Expr → Expr → Prop) : Expr → Expr → Prop
  | pipe {f f' e e' : Expr} : X f f' → X e e' → Unfolds X (.pipe f e) (.apply f' [e'])
  | letIn {bs : List (String × Expr)} {es' : List Expr} {body body' : Expr} : Forall₂ X (bs.map (·.2)) es' →
      X body body' → Unfolds X (.letIn (.eager bs) body) (.apply (.lambda (bs.map (·.1)) body') es')

mutual

/-- The second expression is the first one with some of its pipes and eager `let`s written as applications. -/
inductive Expr.Desugars : Expr → Expr → Prop
  | keep {e e' : Expr} : Expr.Layer Expr.Desugars Decl.Desugars e e' → Expr.Desugars e e'
  | unfold {e e' : Expr} : Expr.Unfolds Expr.Desugars e e' → Expr.Desugars e e'

/-- The same for the right-hand sides of a declaration. -/
inductive Decl.Desugars : Decl → Decl → Prop
  | keep {d d' : Decl} : Decl.Layer Expr.Desugars d d' → Decl.Desugars d d'

end

mutual

/-- All pipes and `let`s may be kept. -/
theorem Expr.Desugars.refl : ∀ e : Expr, e.Desugars e
  | .unit => .keep .unit
  | .integer n => .keep (.integer n)
  | .boolean b => .keep (.boolean b)
  | .string s => .keep (.string s)
  | .list es => .keep (.list (Expr.Desugars.reflAll es))
  | .dict ps => .keep (.dict (Expr.Desugars.reflPairs ps).1 (Expr.Desugars.reflPairs ps).2)
  | .symbol name => .keep (.symbol name)
  | .unary op e => .keep (.unary op (.refl e))
  | .binary op l r => .keep (.binary op (.refl l) (.refl r))
  | .insert k v d => .keep (.insert (.refl k) (.refl v) (.refl d))
  | .combine op c f => .keep (.combine op (.refl c) (.refl f))
  | .branch c y n => .keep (.branch (.refl c) (.refl y) (.refl n))
  | .letIn d body => .keep (.letIn (.refl d) (.refl body))
  | .declare d => .keep (.declare (.refl d))
  | .lambda params body => .keep (.lambda params (.refl body))
  | .apply f es => .keep (.apply (.refl f) (Expr.Desugars.reflAll es))
  | .sequence es => .keep (.sequence (Expr.Desugars.reflAll es))
  | .pipe f e => .keep (.pipe (.refl f) (.refl e))

theorem Expr.Desugars.reflAll : ∀ es : List Expr, Forall₂ Expr.Desugars es es
  | [] => .nil
  | e :: es => .cons (.refl e) (Expr.Desugars.reflAll es)

theorem Expr.Desugars.reflPairs : ∀ ps : List (Expr × Expr),
    Forall₂ Expr.Desugars (ps.map (·.1)) (ps.map (·.1)) ∧ Forall₂ Expr.Desugars (ps.map (·.2)) (ps.map (·.2))
  | [] => ⟨.nil, .nil⟩
  | (k, v) :: ps =>
    ⟨.cons (.refl k) (Expr.Desugars.reflPairs ps).1, .cons (.refl v) (Expr.Desugars.reflPairs ps).2⟩

theorem Decl.Desugars.refl : ∀ d : Decl, d.Desugars d
  | .eager bs => .keep (.eager rfl (Decl.Desugars.reflBindings bs))
  | .lazy bs => .keep (.lazy rfl (Decl.Desugars.reflBindings bs))
  | .recursive name e => .keep (.recursive name (.refl e))
  | .lazyRecursive name e => .keep (.lazyRecursive name (.refl e))

theorem Decl.Desugars.reflBindings : ∀ bs : List (String × Expr),
    Forall₂ Expr.Desugars (bs.map (·.2)) (bs.map (·.2))
  | [] => .nil
  | (_, e) :: bs => .cons (.refl e) (Decl.Desugars.reflBindings bs)

end

/-- One of the two expressions is the other one with some pipes and eager `let`s written as applications. -/
def Expr.Paraphrase (e e' : Expr) : Prop :=
  e.Desugars e' ∨ e'.Desugars e

def Decl.Paraphrase (d d' : Decl) : Prop :=
  d.Desugars d' ∨ d'.Desugars d

/-- Paraphrases of which one is an application that the other one stands for. -/
def Expr.Recast (e e' : Expr) : Prop :=
  Expr.Unfolds Expr.Paraphrase e e' ∨ Expr.Unfolds Expr.Paraphrase e' e

theorem Expr.Paraphrase.symm {e e' : Expr} (h : e.Paraphrase e') : e'.Paraphrase e :=
  Or.symm h

variable {X Y : Expr → Expr → Prop} {D E : Decl → Decl → Prop} {e e' : Expr} {d d' : Decl}

theorem Expr.Layer.imp (hX : ∀ {e e'}, X e e' → Y e e') (hD : ∀ {d d'}, D d d' → E d d') (h : Expr.Layer X D e e') :
    Expr.Layer Y E e e' := by
  have hes : ∀ {es es'}, Forall₂ X es es' → Forall₂ Y es es' := fun h => h.imp fun _ _ => hX
  cases h with
  | list h => exact .list (hes h)
  | dict hks hvs => exact .dict (hes hks) (hes hvs)
  | letIn hd hbody => exact .letIn (hD hd) (hX hbody)
  | declare hd => exact .declare (hD hd)
  | apply hf h => exact .apply (hX hf) (hes h)
  | sequence h => exact .sequence (hes h)
  | _ => constructor <;> exact hX ‹_›

theorem Expr.Layer.symm (h : Expr.Layer X D e e') : Expr.Layer (flip X) (flip D) e' e := by
  have hes : ∀ {es es'}, Forall₂ X es es' → Forall₂ (flip X) es' es := fun h => h.flip
  cases h with
  | list h => exact .list (hes h)
  | dict hks hvs => exact .dict (hes hks) (hes hvs)
  | apply hf h => exact .apply hf (hes h)
  | sequence h => exact .sequence (hes h)
  | _ => constructor <;> assumption

theorem Decl.Layer.imp (hX : ∀ {e e'}, X e e' → Y e e') (h : Decl.Layer X d d') : Decl.Layer Y d d' := by
  cases h with
  | eager hnames hes => exact .eager hnames (hes.imp fun _ _ => hX)
  | lazy hnames hes => exact .lazy hnames (hes.imp fun _ _ => hX)
  | recursive name he => exact .recursive name (hX he)
  | lazyRecursive name he => exact .lazyRecursive name (hX he)

theorem Decl.Layer.symm (h : Decl.Layer X d d') : Decl.Layer (flip X) d' d := by
  cases h with
  | eager hnames hes => exact .eager hnames.symm hes.flip
  | lazy hnames hes => exact .lazy hnames.symm hes.flip
  | recursive name he => exact .recursive name he
  | lazyRecursive name he => exact .lazyRecursive name he

theorem Expr.Unfolds.imp (hX : ∀ {e e'}, X e e' → Y e e') (h : Expr.Unfolds X e e') : Expr.Unfolds Y e e' := by
  cases h with
  | pipe hf he => exact .pipe (hX hf) (hX he)
  | letIn hes hbody => exact .letIn (hes.imp fun _ _ => hX) (hX hbody)

theorem Expr.Paraphrase.layer (h : e.Paraphrase e') :
    Expr.Layer Expr.Paraphrase Decl.Paraphrase e e' ∨ e.Recast e' := by
  rcases h with ⟨⟨h⟩ | ⟨h⟩⟩ | ⟨⟨h⟩ | ⟨h⟩⟩
  · exact Or.inl (h.imp Or.inl Or.inl)
  · exact Or.inr (Or.inl (h.imp Or.inl))
  · exact Or.inl (h.symm.imp Or.inr Or.inr)
  · exact Or.inr (Or.inr (h.imp Or.inl))

theorem Decl.Paraphrase.layer (h : d.Paraphrase d') : Decl.Layer Expr.Paraphrase d d' := by
  rcases h with ⟨⟨h⟩⟩ | ⟨⟨h⟩⟩
  · exact h.imp Or.inl
  · exact h.symm.imp Or.inr

theorem Expr.Recast.isCall (h : e.Recast e') : e.isCall ∧ e'.isCall := by
  rcases h with ⟨_, _⟩ | ⟨_, _⟩ <;> exact ⟨rfl, rfl⟩

/-- The builders of lazy recursive functions are paraphrases if the functions are. -/
theorem Expr.Paraphrase.builder (name : String) (h : e.Paraphrase e') :
    Expr.Paraphrase (.letIn (.recursive name e) (.symbol name)) (.letIn (.recursive name e') (.symbol name)) := by
  have hbuilder : ∀ {e e' : Expr}, e.Desugars e' →
      Expr.Desugars (.letIn (.recursive name e) (.symbol name)) (.letIn (.recursive name e') (.symbol name)) :=
    fun h => .keep (.letIn (.keep (.recursive name h)) (.refl _))
  exact h.imp hbuilder hbuilder

end Programs

/-! ## Values -/

section Values

mutual

/-- Values of one structure, with functions whose identities are related by `w` and whose bodies are paraphrases. -/
inductive Value.Paraphrase (w : Nat → Nat → Prop) : Value → Value → Prop
  | unit : Value.Paraphrase w .unit .unit
  | int (n : Int64) : Value.Paraphrase w (.int n) (.int n)
  | bool (b : Bool) : Value.Paraphrase w (.bool b) (.bool b)
  | str (s : String) : Value.Paraphrase w (.str s) (.str s)
  | list {vs vs' : List Value} : Forall₂ (Value.Paraphrase w) vs vs' → Value.Paraphrase w (.list vs) (.list vs')
  | dict {ps ps' : List (Value × Value)} : Forall₂ (Value.Paraphrase w) (ps.map (·.1)) (ps'.map (·.1)) →
      Forall₂ (Value.Paraphrase w) (ps.map (·.2)) (ps'.map (·.2)) → Value.Paraphrase w (.dict ps) (.dict ps')
  | closure {i i' : Nat} {body body' : Expr} {r r' : Env} (self : Option String) (params : List String) : w i i' →
      body.Paraphrase body' → Forall₂ (Entry.Paraphrase w) r r' →
      Value.Paraphrase w (.closure i self params body r) (.closure i' self params body' r')
  | primitive {vs vs' : List Value} (f : Builtin) : Forall₂ (Value.Paraphrase w) vs vs' →
      Value.Paraphrase w (.primitive f vs) (.primitive f vs')

/-- Names that are the same and are bound to such values, or to thunks of paraphrases with the same memo cell. -/
inductive Entry.Paraphrase (w : Nat → Nat → Prop) : String × Binding → String × Binding → Prop
  | value {v v' : Value} (name : String) : Value.Paraphrase w v v' →
      Entry.Paraphrase w (name, .value v) (name, .value v')
  | thunk {e e' : Expr} {r r' : Env} (name : String) (cell : Nat) : e.Paraphrase e' →
      Forall₂ (Entry.Paraphrase w) r r' → Entry.Paraphrase w (name, .thunk cell e r) (name, .thunk cell e' r')

end

/-- Environments that bind the same names alike. -/
def Env.Paraphrase (w : Nat → Nat → Prop) (r r' : Env) : Prop :=
  Forall₂ (Entry.Paraphrase w) r r'

variable {w w' : Nat → Nat → Prop} {r r' : Env}

theorem Value.paraphrase_iff (w : Nat → Nat → Prop) (v v' : Value) : v.Paraphrase w v' ↔
    Value.Layer (Value.Paraphrase w)
      (fun f f' => w f.1 f'.1 ∧ f.2.1.Paraphrase f'.2.1 ∧ Env.Paraphrase w f.2.2 f'.2.2) v v' := by
  constructor
  · intro h
    cases h with
    | unit => exact .unit
    | int n => exact .int n
    | bool b => exact .bool b
    | str s => exact .str s
    | list hvs => exact .list hvs
    | dict hks hvs => exact .dict (forall₂_pairs_iff.2 ⟨hks, hvs⟩)
    | closure self params hi hbody hr => exact .closure self params ⟨hi, hbody, hr⟩
    | primitive f hvs => exact .primitive f hvs
  · intro h
    cases h with
    | unit => exact .unit
    | int n => exact .int n
    | bool b => exact .bool b
    | str s => exact .str s
    | list hvs => exact .list hvs
    | dict hps => exact .dict (forall₂_pairs_iff.1 hps).1 (forall₂_pairs_iff.1 hps).2
    | closure self params h => exact .closure self params h.1 h.2.1 h.2.2
    | primitive f hvs => exact .primitive f hvs

mutual

/-- More identities may be related. -/
theorem Value.Paraphrase.mono (hw : w ≤ w') : ∀ {v v' : Value}, v.Paraphrase w v' → v.Paraphrase w' v'
  | .unit, _, .unit => .unit
  | .int _, _, .int n => .int n
  | .bool _, _, .bool b => .bool b
  | .str _, _, .str s => .str s
  | .list _, _, .list hvs => .list (Value.Paraphrase.monoAll hw hvs)
  | .dict _, _, .dict hks hvs =>
    have hps := forall₂_pairs_iff.1 (Value.Paraphrase.monoPairs hw (forall₂_pairs_iff.2 ⟨hks, hvs⟩))
    .dict hps.1 hps.2
  | .closure _ _ _ _ _, _, .closure self params hi hbody hr =>
    .closure self params (hw _ _ hi) hbody (Env.Paraphrase.mono hw hr)
  | .primitive _ _, _, .primitive f hvs => .primitive f (Value.Paraphrase.monoAll hw hvs)
termination_by structural v => v

theorem Value.Paraphrase.monoAll (hw : w ≤ w') : ∀ {vs vs' : List Value}, Forall₂ (Value.Paraphrase w) vs vs' →
    Forall₂ (Value.Paraphrase w') vs vs'
  | [], _, h => by
    cases h
    exact .nil
  | v :: vs, _, h => by
    cases h with
    | cons hv hvs => exact .cons (Value.Paraphrase.mono hw hv) (Value.Paraphrase.monoAll hw hvs)
termination_by structural vs => vs

theorem Value.Paraphrase.monoPairs (hw : w ≤ w') : ∀ {ps ps' : List (Value × Value)},
    Forall₂ (fun p p' => p.1.Paraphrase w p'.1 ∧ p.2.Paraphrase w p'.2) ps ps' →
    Forall₂ (fun p p' => p.1.Paraphrase w' p'.1 ∧ p.2.Paraphrase w' p'.2) ps ps'
  | [], _, h => by
    cases h
    exact .nil
  | (k, v) :: ps, _, h => by
    cases h with
    | cons hp hps =>
      exact .cons ⟨Value.Paraphrase.mono hw hp.1, Value.Paraphrase.mono hw hp.2⟩ (Value.Paraphrase.monoPairs hw hps)
termination_by structural ps => ps

theorem Entry.Paraphrase.mono (hw : w ≤ w') : ∀ {p p' : String × Binding}, Entry.Paraphrase w p p' →
    Entry.Paraphrase w' p p'
  | (name, .value v), _, h => by
    cases h with
    | value _ hv => exact .value name (Value.Paraphrase.mono hw hv)
  | (name, .thunk cell e r), _, h => by
    cases h with
    | thunk _ _ he hr => exact .thunk name cell he (Env.Paraphrase.mono hw hr)
termination_by structural p => p

theorem Env.Paraphrase.mono (hw : w ≤ w') : ∀ {r r' : List (String × Binding)}, Env.Paraphrase w r r' →
    Env.Paraphrase w' r r'
  | [], _, h => by
    cases h
    exact .nil
  | p :: r, _, h => by
    cases h with
    | cons hp hr => exact .cons (Entry.Paraphrase.mono hw hp) (Env.Paraphrase.mono hw hr)
termination_by structural r => r

end

/-- What a name is bound to is found alike. -/
theorem Env.Paraphrase.lookup (h : Env.Paraphrase w r r') (name : String) :
    Option.Rel (fun b b' => Entry.Paraphrase w (name, b) (name, b')) (r.lookup? name) (r'.lookup? name) := by
  unfold Env.lookup?
  split
  · exact .none
  · induction h with
    | nil => exact .none
    | @cons p p' r r' hp _ ih =>
      obtain ⟨other, b⟩ := p
      obtain ⟨other', b'⟩ := p'
      obtain rfl : other = other' := by cases hp <;> rfl
      rw [List.lookup_cons, List.lookup_cons]
      split
      · next heq =>
        rw [eq_of_beq heq]
        exact .some hp
      · exact ih

end Values

/-! ## Stores -/

section Stores

/-- Which identities of functions stand for each other, one to one. -/
structure Pairing where
  rel : Nat → Nat → Prop
  oneToOne : ∀ {i i' j j' : Nat}, rel i i' → rel j j' → (i = j ↔ i' = j')

namespace Pairing

instance : Preorder Pairing := Preorder.lift rel

/-- No identities stand for each other. -/
def empty : Pairing where
  rel _ _ := False
  oneToOne := nofun

/-- Two more identities, which do not occur yet. -/
def insert (w : Pairing) (i i' : Nat) (hfresh : ∀ {j j' : Nat}, w.rel j j' → j < i ∧ j' < i') : Pairing where
  rel j j' := w.rel j j' ∨ j = i ∧ j' = i'
  oneToOne := by
    rintro j j' l l' (hj | ⟨rfl, rfl⟩) (hl | ⟨rfl, rfl⟩)
    · exact w.oneToOne hj hl
    · have := hfresh hj
      omega
    · have := hfresh hl
      omega
    · exact ⟨fun _ => rfl, fun _ => rfl⟩

end Pairing

/-- Stores with as many memo cells, which hold such values. Identities that stand for each other have been handed
out. -/
structure Store.Paraphrase (w : Pairing) (σ τ : Store) : Prop where
  below : ∀ {i i' : Nat}, w.rel i i' → i < σ.nextId ∧ i' < τ.nextId
  size_eq : σ.cells.size = τ.cells.size
  memo : ∀ cell, Option.Rel (Value.Paraphrase w.rel) (σ.memo? cell) (τ.memo? cell)

namespace Store.Paraphrase

variable {w : Pairing} {σ τ : Store}

theorem start : Store.Paraphrase .empty {} {} where
  below := nofun
  size_eq := rfl
  memo _ := .none

/-- The left run may hand out identities that stand for none. -/
theorem skip_left (h : Store.Paraphrase w σ τ) : Store.Paraphrase w { σ with nextId := σ.nextId + 1 } τ where
  below hi := ⟨Nat.lt_succ_of_lt (h.below hi).1, (h.below hi).2⟩
  size_eq := h.size_eq
  memo := h.memo

/-- So may the right one. -/
theorem skip_right (h : Store.Paraphrase w σ τ) : Store.Paraphrase w σ { τ with nextId := τ.nextId + 1 } where
  below hi := ⟨(h.below hi).1, Nat.lt_succ_of_lt (h.below hi).2⟩
  size_eq := h.size_eq
  memo := h.memo

theorem fresh (h : Store.Paraphrase w σ τ) : ∃ w', w ≤ w' ∧ w'.rel σ.nextId τ.nextId ∧
    Store.Paraphrase w' { σ with nextId := σ.nextId + 1 } { τ with nextId := τ.nextId + 1 } := by
  have hle : w ≤ w.insert σ.nextId τ.nextId h.below := fun _ _ hi => Or.inl hi
  refine ⟨_, hle, Or.inr ⟨rfl, rfl⟩, ?_, h.size_eq, fun cell => ?_⟩
  · rintro i i' (hi | ⟨rfl, rfl⟩)
    · exact (h.skip_left.skip_right).below hi
    · exact ⟨Nat.lt_succ_self _, Nat.lt_succ_self _⟩
  · have hrel := h.memo cell
    show Option.Rel _ (σ.memo? cell) (τ.memo? cell)
    generalize σ.memo? cell = held at hrel ⊢
    generalize τ.memo? cell = held' at hrel ⊢
    cases hrel with
    | none => exact .none
    | some hv => exact .some (hv.mono hle)

theorem newCell (h : Store.Paraphrase w σ τ) :
    Store.Paraphrase w { σ with cells := σ.cells.push none } { τ with cells := τ.cells.push none } where
  below := h.below
  size_eq := by rw [Array.size_push, Array.size_push, h.size_eq]
  memo cell := by
    rw [Store.memo?_push, Store.memo?_push]
    exact h.memo cell

theorem fill (h : Store.Paraphrase w σ τ) {v v' : Value} (cell : Nat) (hv : v.Paraphrase w.rel v') :
    Store.Paraphrase w { σ with cells := σ.cells.set! cell (some v) }
      { τ with cells := τ.cells.set! cell (some v') } where
  below := h.below
  size_eq := by simp [h.size_eq]
  memo other := by
    rw [Store.memo?_set, Store.memo?_set, ← h.size_eq]
    split
    · exact .some hv
    · exact h.memo other

end Store.Paraphrase

/-- Stacks of one depth have room for a frame, or have none, alike. -/
theorem CallStack.pushWithin_alike (limit : Option Nat) {s s' : CallStack} (h : s.depth = s'.depth) :
    (∃ cause, ∀ e, s.pushWithin limit e = .error cause ∧ s'.pushWithin limit e = .error cause) ∨
      ∀ e, s.pushWithin limit e = .ok (s.push e) ∧ s'.pushWithin limit e = .ok (s'.push e) := by
  cases limit with
  | none => exact Or.inr fun e => ⟨rfl, rfl⟩
  | some m =>
    by_cases hm : m ≤ s.depth
    · exact Or.inl ⟨_, fun e => ⟨CallStack.pushWithin_of_le hm e, CallStack.pushWithin_of_le (h ▸ hm) e⟩⟩
    · have hlt := Nat.lt_of_not_le hm
      exact Or.inr fun e => ⟨CallStack.pushWithin_of_lt hlt e, CallStack.pushWithin_of_lt (h ▸ hlt) e⟩

/-- The runs of two paraphrases, on stacks of one depth. Their failures have the same cause. -/
def paraphrased (config : Config) : Simulation Pairing where
  left := config
  right := config
  expr := Expr.Paraphrase
  decl := Decl.Paraphrase
  recast := Expr.Recast
  ident w := w.rel
  value w := Value.Paraphrase w.rel
  env w := Env.Paraphrase w.rel
  store := Store.Paraphrase
  stack s s' := s.depth = s'.depth
  failure := Failure.SameCause
  pardons _ := False
  faithful := True
  expr_layer := Expr.Paraphrase.layer
  recast_calls := Expr.Recast.isCall
  value_iff w := Value.paraphrase_iff w.rel
  ident_faithful _ w i i' j j' hi hj := by
    rw [Bool.eq_iff_iff, beq_iff_eq, beq_iff_eq]
    exact w.oneToOne hi hj
  value_mono hw h := h.mono hw
  env_mono hw h := h.mono hw
  env_bind name hr hv := .cons (.value name hv) hr
  fresh h := h.fresh
  note _ _ _ _ _ h := ⟨h.below, h.size_eq, h.memo⟩
  failure_refl := .refl
  frame := by
    intro s s' e e' hs _
    rcases CallStack.pushWithin_alike config.maxDepth hs with ⟨cause, hfull⟩ | hroom
    · exact Or.inl ⟨cause, (hfull e).1, Or.inr (hfull e').2⟩
    · exact Or.inr ⟨(hroom e).1, (hroom e').2, congrArg (· + 1) hs⟩
  attach _ h := h.attach _ _
  pardons_attach _ _ := id

end Stores

end Treewalk
