import Treewalk.Eval.Run
import Treewalk.Proofs.Erasure

/-!
# Values up to renaming

The marks of a value (`Value.marks`) are what its erasure leaves out: the identities of its functions, and its thunks
with the numbers of their memo cells. A `Renaming` relates marks, and values are equal up to it (`Value.Renamed`) if
they have one structure and their marks are related one by one.

* The relation goes down to the functions of a value (`Value.renamed_iff`) and to the bindings of an environment
  (`Env.Renamed.lookup`).
* Renamings compose (`Value.Renamed.comp`). A value is equal to itself up to the renaming of a set in which every mark
  stands for itself (`Renaming.on`) iff its marks are in the set (`Value.renamed_on_iff`). Up to equality of marks, a
  value is equal only to itself (`Value.Renamed.eq`).
-/

namespace Treewalk

open List (Forall₂)

/-! ## Marks -/

section Marks

/-- A thunk: its memo cell, its expression and its environment. -/
abbrev Thunk : Type := Nat × Expr × Env

/-- What a run leaves in a value: the identity of a function, or a thunk with its memo cell. -/
inductive Mark where
  | ident (i : Nat)
  | thunk (t : Thunk)

/-- The number of a mark. Identities and memo cells are numbered apart. -/
def Mark.number : Mark → Nat ⊕ Nat
  | .ident i => .inl i
  | .thunk t => .inr t.1

mutual

/-- The marks of a value, also those in the environments that it reaches. -/
def Value.marks : Value → List Mark
  | .unit | .int _ | .bool _ | .str _ => []
  | .list vs => Value.marksAll vs
  | .dict ps => Value.marksPairs ps
  | .closure i _ _ _ env => .ident i :: Env.marks env
  | .primitive _ vs => Value.marksAll vs

def Value.marksAll : List Value → List Mark
  | [] => []
  | v :: vs => v.marks ++ Value.marksAll vs

def Value.marksPairs : List (Value × Value) → List Mark
  | [] => []
  | (k, v) :: ps => k.marks ++ v.marks ++ Value.marksPairs ps

def Binding.marks : Binding → List Mark
  | .value v => v.marks
  | .thunk cell e env => .thunk (cell, e, env) :: Env.marks env

/-- The marks of an environment. -/
def Env.marks : List (String × Binding) → List Mark
  | [] => []
  | (_, binding) :: env => binding.marks ++ Env.marks env

end

mutual

/-- Erasure keeps the places of marks. -/
theorem Value.length_marks_erase : ∀ v : Value, v.erase.marks.length = v.marks.length
  | .unit | .int _ | .bool _ | .str _ => rfl
  | .list vs => Value.length_marksAll_erase vs
  | .dict ps => Value.length_marksPairs_erase ps
  | .closure _ _ _ _ env => congrArg (· + 1) (Env.length_marks_erase env)
  | .primitive _ vs => Value.length_marksAll_erase vs

theorem Value.length_marksAll_erase :
    ∀ vs : List Value, (Value.marksAll (Value.eraseAll vs)).length = (Value.marksAll vs).length
  | [] => rfl
  | v :: vs => by
    simp only [Value.eraseAll, Value.marksAll, List.length_append, Value.length_marks_erase v,
      Value.length_marksAll_erase vs]

theorem Value.length_marksPairs_erase : ∀ ps : List (Value × Value),
    (Value.marksPairs (Value.erasePairs ps)).length = (Value.marksPairs ps).length
  | [] => rfl
  | (k, v) :: ps => by
    simp only [Value.erasePairs, Value.marksPairs, List.length_append, Value.length_marks_erase k,
      Value.length_marks_erase v, Value.length_marksPairs_erase ps]

theorem Binding.length_marks_erase : ∀ b : Binding, b.erase.marks.length = b.marks.length
  | .value v => Value.length_marks_erase v
  | .thunk _ _ env => congrArg (· + 1) (Env.length_marks_erase env)

theorem Env.length_marks_erase :
    ∀ env : List (String × Binding), (Env.marks (Env.erase env)).length = (Env.marks env).length
  | [] => rfl
  | (_, b) :: env => by
    simp only [Env.erase, Env.marks, List.length_append, Binding.length_marks_erase b, Env.length_marks_erase env]

end

theorem Value.length_marks_eq {v v' : Value} (h : v.erase = v'.erase) : v.marks.length = v'.marks.length := by
  rw [← v.length_marks_erase, h, v'.length_marks_erase]

theorem Binding.length_marks_eq {b b' : Binding} (h : b.erase = b'.erase) : b.marks.length = b'.marks.length := by
  rw [← b.length_marks_erase, h, b'.length_marks_erase]

end Marks

/-! ## Renamings -/

section Renamings

/-- Which marks stand for each other. -/
abbrev Renaming : Type := Mark → Mark → Prop

/-- Marks of one number on either side are the same on both. -/
def Renaming.OneToOne (w : Renaming) : Prop :=
  ∀ ⦃m m' n n' : Mark⦄, w m m' → w n n' → m.number = n.number ∨ m'.number = n'.number → m = n ∧ m' = n'

/-- Values of one structure whose marks stand for each other. -/
def Value.Renamed (w : Renaming) (v v' : Value) : Prop :=
  v.erase = v'.erase ∧ Forall₂ w v.marks v'.marks

/-- Environments of one structure whose marks stand for each other. -/
def Env.Renamed (w : Renaming) (r r' : Env) : Prop :=
  Env.erase r = Env.erase r' ∧ Forall₂ w (Env.marks r) (Env.marks r')

/-- What environments that are equal up to a renaming bind a name to. -/
inductive Binding.Renamed (w : Renaming) : Binding → Binding → Prop
  | value {v v' : Value} : v.Renamed w v' → Renamed w (.value v) (.value v')
  | thunk {cell cell' : Nat} {e : Expr} {r r' : Env} : w (.thunk (cell, e, r)) (.thunk (cell', e, r')) →
      Env.Renamed w r r' → Renamed w (.thunk cell e r) (.thunk cell' e r')

/-- Results that are equal up to a renaming: values that are, or the same failure. -/
inductive Result.Renamed (w : Renaming) : Result → Result → Prop
  | ok {v v' : Value} : v.Renamed w v' → Renamed w (.ok v) (.ok v')
  | error (failure : Failure) : Renamed w (.error failure) (.error failure)

variable {w w' : Renaming} {v v' v'' : Value} {r r' r'' : Env} {b b' : Binding}

theorem Value.Renamed.mono (hw : w ≤ w') (h : v.Renamed w v') : v.Renamed w' v' :=
  ⟨h.1, h.2.imp hw⟩

theorem Env.Renamed.mono (hw : w ≤ w') (h : Env.Renamed w r r') : Env.Renamed w' r r' :=
  ⟨h.1, h.2.imp hw⟩

/-- One renaming after another. -/
def Renaming.comp (w w' : Renaming) : Renaming :=
  fun m m'' => ∃ m', w m m' ∧ w' m' m''

theorem Renaming.OneToOne.comp (h : w.OneToOne) (h' : w'.OneToOne) : (w.comp w').OneToOne := by
  rintro m m'' n n'' ⟨m', hm, hm'⟩ ⟨n', hn, hn'⟩ hnumber
  have heq : m' = n' := by
    rcases hnumber with hnumber | hnumber
    · exact (h hm hn (Or.inl hnumber)).2
    · exact (h' hm' hn' (Or.inr hnumber)).1
  subst heq
  exact ⟨(h hm hn (Or.inr rfl)).1, (h' hm' hn' (Or.inl rfl)).2⟩

theorem forall₂_comp {ms ms' ms'' : List Mark} (h : Forall₂ w ms ms') (h' : Forall₂ w' ms' ms'') :
    Forall₂ (w.comp w') ms ms'' := by
  induction h generalizing ms'' with
  | nil =>
    cases h'
    exact .nil
  | cons hm _ ih =>
    cases h' with
    | cons hm' h' => exact .cons ⟨_, hm, hm'⟩ (ih h')

theorem Value.Renamed.comp (h : v.Renamed w v') (h' : v'.Renamed w' v'') : v.Renamed (w.comp w') v'' :=
  ⟨h.1.trans h'.1, forall₂_comp h.2 h'.2⟩

theorem Value.Renamed.symm (h : v.Renamed w v') : v'.Renamed (flip w) v :=
  ⟨h.1.symm, h.2.flip⟩

theorem Env.Renamed.symm (h : Env.Renamed w r r') : Env.Renamed (flip w) r' r :=
  ⟨h.1.symm, h.2.flip⟩

theorem Value.renamed_self_iff : v.Renamed w v ↔ ∀ m ∈ v.marks, w m m :=
  ⟨fun h => List.forall₂_same.1 h.2, fun h => ⟨rfl, List.forall₂_same.2 h⟩⟩

theorem Env.renamed_self_iff : Env.Renamed w r r ↔ ∀ m ∈ Env.marks r, w m m :=
  ⟨fun h => List.forall₂_same.1 h.2, fun h => ⟨rfl, List.forall₂_same.2 h⟩⟩

/-- Every mark of a set stands for itself. -/
def Renaming.on (T : Set Mark) : Renaming :=
  fun m m' => m = m' ∧ m ∈ T

theorem Value.renamed_on_iff {T : Set Mark} : v.Renamed (Renaming.on T) v ↔ ∀ m ∈ v.marks, m ∈ T := by
  rw [Value.renamed_self_iff]
  exact ⟨fun h m hm => (h m hm).2, fun h m hm => ⟨rfl, h m hm⟩⟩

theorem Env.renamed_on_iff {T : Set Mark} : Env.Renamed (Renaming.on T) r r ↔ ∀ m ∈ Env.marks r, m ∈ T := by
  rw [Env.renamed_self_iff]
  exact ⟨fun h m hm => (h m hm).2, fun h m hm => ⟨rfl, h m hm⟩⟩

end Renamings

/-! ## The parts of a value -/

section Parts

variable {w : Renaming} {r r' : Env} {b b' : Binding}

/-- Two lists are related piece by piece, if the first pieces have one length. -/
theorem forall₂_append_iff {α : Type} {R : α → α → Prop} {as as' bs bs' : List α} (h : as.length = as'.length) :
    Forall₂ R (as ++ bs) (as' ++ bs') ↔ Forall₂ R as as' ∧ Forall₂ R bs bs' := by
  induction as generalizing as' with
  | nil =>
    obtain rfl := List.eq_nil_of_length_eq_zero h.symm
    exact ⟨fun h => ⟨.nil, h⟩, fun h => h.2⟩
  | cons a as ih =>
    cases as' with
    | nil => cases h
    | cons a' as' =>
      rw [List.cons_append, List.cons_append, List.forall₂_cons, List.forall₂_cons, ih (Nat.succ.inj h), and_assoc]

theorem Value.renamedAll_iff {vs vs' : List Value} :
    Value.eraseAll vs = Value.eraseAll vs' ∧ Forall₂ w (Value.marksAll vs) (Value.marksAll vs') ↔
      Forall₂ (Value.Renamed w) vs vs' := by
  rw [Value.eraseAll_eq_iff]
  constructor
  · rintro ⟨herase, hmarks⟩
    induction herase with
    | nil => exact .nil
    | cons hv _ ih =>
      obtain ⟨hmark, hmarks⟩ := (forall₂_append_iff (Value.length_marks_eq hv)).1 hmarks
      exact .cons ⟨hv, hmark⟩ (ih hmarks)
  · intro h
    induction h with
    | nil => exact ⟨.nil, .nil⟩
    | cons hv _ ih => exact ⟨.cons hv.1 ih.1, List.rel_append hv.2 ih.2⟩

theorem Value.renamedPairs_iff {ps ps' : List (Value × Value)} :
    Value.erasePairs ps = Value.erasePairs ps' ∧ Forall₂ w (Value.marksPairs ps) (Value.marksPairs ps') ↔
      Forall₂ (fun p p' => p.1.Renamed w p'.1 ∧ p.2.Renamed w p'.2) ps ps' := by
  rw [Value.erasePairs_eq_iff]
  constructor
  · rintro ⟨herase, hmarks⟩
    induction herase with
    | nil => exact .nil
    | cons hp _ ih =>
      simp only [Value.marksPairs, List.append_assoc] at hmarks
      obtain ⟨hkey, hmarks⟩ := (forall₂_append_iff (Value.length_marks_eq hp.1)).1 hmarks
      obtain ⟨hvalue, hmarks⟩ := (forall₂_append_iff (Value.length_marks_eq hp.2)).1 hmarks
      exact .cons ⟨⟨hp.1, hkey⟩, ⟨hp.2, hvalue⟩⟩ (ih hmarks)
  · intro h
    induction h with
    | nil => exact ⟨.nil, .nil⟩
    | cons hp _ ih => exact ⟨.cons ⟨hp.1.1, hp.2.1⟩ ih.1, List.rel_append (List.rel_append hp.1.2 hp.2.2) ih.2⟩

/-- **Values are equal up to a renaming iff they are built alike**, from functions whose identities stand for each
other and whose environments are equal up to the renaming. -/
theorem Value.renamed_iff (w : Renaming) (v v' : Value) : v.Renamed w v' ↔
    Value.Layer (Value.Renamed w)
      (fun f f' => w (.ident f.1) (.ident f'.1) ∧ f.2.1 = f'.2.1 ∧ Env.Renamed w f.2.2 f'.2.2) v v' := by
  constructor
  · rintro ⟨herase, hmarks⟩
    cases Value.erase_eq_iff.1 herase with
    | unit => exact .unit
    | int n => exact .int n
    | bool b => exact .bool b
    | str s => exact .str s
    | list hvs => exact .list (renamedAll_iff.1 ⟨eraseAll_eq_iff.2 hvs, hmarks⟩)
    | dict hps => exact .dict (renamedPairs_iff.1 ⟨erasePairs_eq_iff.2 hps, hmarks⟩)
    | closure self params h =>
      obtain ⟨hident, hmarks⟩ := List.forall₂_cons.1 hmarks
      exact .closure self params ⟨hident, h.1, h.2, hmarks⟩
    | primitive f hvs => exact .primitive f (renamedAll_iff.1 ⟨eraseAll_eq_iff.2 hvs, hmarks⟩)
  · intro h
    cases h with
    | unit | int | bool | str => exact ⟨rfl, .nil⟩
    | list hvs =>
      obtain ⟨herase, hmarks⟩ := renamedAll_iff.2 hvs
      exact ⟨congrArg Value.list herase, hmarks⟩
    | dict hps =>
      obtain ⟨herase, hmarks⟩ := renamedPairs_iff.2 hps
      exact ⟨congrArg Value.dict herase, hmarks⟩
    | closure self params h =>
      obtain ⟨hident, hbody, henv⟩ := h
      exact ⟨Value.erase_eq_iff.2 (.closure self params ⟨hbody, henv.1⟩), .cons hident henv.2⟩
    | primitive f hvs =>
      obtain ⟨herase, hmarks⟩ := renamedAll_iff.2 hvs
      exact ⟨congrArg (Value.primitive f) herase, hmarks⟩

theorem Binding.renamed_iff : b.Renamed w b' ↔ b.erase = b'.erase ∧ Forall₂ w b.marks b'.marks := by
  constructor
  · intro h
    cases h with
    | value hv => exact ⟨congrArg Binding.value hv.1, hv.2⟩
    | thunk hthunk hr => exact ⟨congrArg (Binding.thunk 0 _) hr.1, .cons hthunk hr.2⟩
  · rintro ⟨herase, hmarks⟩
    cases b with
    | value v =>
      cases b' with
      | value v' => exact .value ⟨Binding.value.inj herase, hmarks⟩
      | thunk => cases herase
    | thunk cell e r =>
      cases b' with
      | value v' => cases herase
      | thunk cell' e' r' =>
        obtain ⟨_, rfl, hr⟩ := Binding.thunk.inj herase
        obtain ⟨hthunk, hmarks⟩ := List.forall₂_cons.1 hmarks
        exact .thunk hthunk ⟨hr, hmarks⟩

theorem Env.renamed_nil : Env.Renamed w [] [] :=
  ⟨rfl, .nil⟩

theorem Env.renamed_cons_iff {p p' : String × Binding} :
    Env.Renamed w (p :: r) (p' :: r') ↔ p.1 = p'.1 ∧ p.2.Renamed w p'.2 ∧ Env.Renamed w r r' := by
  obtain ⟨name, b⟩ := p
  obtain ⟨name', b'⟩ := p'
  have happend : b.erase = b'.erase →
      (Forall₂ w (Env.marks ((name, b) :: r)) (Env.marks ((name', b') :: r')) ↔
        Forall₂ w b.marks b'.marks ∧ Forall₂ w (Env.marks r) (Env.marks r')) :=
    fun hb => forall₂_append_iff (Binding.length_marks_eq hb)
  constructor
  · rintro ⟨herase, hmarks⟩
    obtain ⟨hp, hr⟩ := List.cons.inj herase
    obtain ⟨hname, hb⟩ := Prod.mk.inj hp
    obtain ⟨hbmarks, hrmarks⟩ := (happend hb).1 hmarks
    exact ⟨hname, Binding.renamed_iff.2 ⟨hb, hbmarks⟩, hr, hrmarks⟩
  · rintro ⟨hname, hb, hr⟩
    obtain ⟨hb, hbmarks⟩ := Binding.renamed_iff.1 hb
    refine ⟨?_, (happend hb).2 ⟨hbmarks, hr.2⟩⟩
    show (name, b.erase) :: Env.erase r = (name', b'.erase) :: Env.erase r'
    rw [show name = name' from hname, hb, hr.1]

theorem Env.Renamed.extend (name : String) (hr : Env.Renamed w r r') (hb : b.Renamed w b') :
    Env.Renamed w (r.extend name b) (r'.extend name b') :=
  Env.renamed_cons_iff.2 ⟨rfl, hb, hr⟩

/-- Names are bound to what is equal up to the renaming. -/
theorem Env.Renamed.lookup (h : Env.Renamed w r r') (name : String) :
    Option.Rel (Binding.Renamed w) (r.lookup? name) (r'.lookup? name) := by
  unfold Env.lookup?
  split
  · exact .none
  · induction r generalizing r' with
    | nil =>
      cases r' with
      | nil => exact .none
      | cons p' r' => cases h.1
    | cons p r ih =>
      cases r' with
      | nil => cases h.1
      | cons p' r' =>
        obtain ⟨hname, hb, hr⟩ := Env.renamed_cons_iff.1 h
        rw [List.lookup_cons, List.lookup_cons, hname]
        split
        · exact .some hb
        · exact ih hr

end Parts

/-! ## Equality -/

section Equality

/-- Every mark stands for itself, if it stands for anything. -/
def Renaming.Exact (w : Renaming) : Prop :=
  ∀ ⦃m m' : Mark⦄, w m m' → m = m'

variable {w : Renaming}

theorem Renaming.on_exact (D : Set Mark) : (Renaming.on D).Exact :=
  fun _ _ h => h.1

mutual

/-- Values that are equal up to equality of marks are equal. -/
theorem Value.Renamed.eq (hw : w.Exact) : ∀ {v v' : Value}, v.Renamed w v' → v = v'
  | v, v', h => by
    cases (Value.renamed_iff w v v').1 h with
    | unit | int | bool | str => rfl
    | list hvs => rw [Value.Renamed.eqAll hw hvs]
    | dict hps => rw [Value.Renamed.eqPairs hw hps]
    | closure self params hf =>
      obtain ⟨hident, hbody, henv⟩ := hf
      dsimp only at hident hbody henv
      cases hw hident
      rw [hbody, Env.Renamed.eq hw henv]
    | primitive f hvs => rw [Value.Renamed.eqAll hw hvs]
termination_by structural v => v

theorem Value.Renamed.eqAll (hw : w.Exact) : ∀ {vs vs' : List Value}, Forall₂ (Value.Renamed w) vs vs' → vs = vs'
  | [], _, h => by
    cases h
    rfl
  | v :: vs, _, h => by
    cases h with
    | cons hv hvs => rw [Value.Renamed.eq hw hv, Value.Renamed.eqAll hw hvs]
termination_by structural vs => vs

theorem Value.Renamed.eqPairs (hw : w.Exact) : ∀ {ps ps' : List (Value × Value)},
    Forall₂ (fun p p' => p.1.Renamed w p'.1 ∧ p.2.Renamed w p'.2) ps ps' → ps = ps'
  | [], _, h => by
    cases h
    rfl
  | (k, v) :: ps, _, h => by
    cases h with
    | cons hp hps => rw [Value.Renamed.eqPairs hw hps, Prod.ext (Value.Renamed.eq hw hp.1) (Value.Renamed.eq hw hp.2)]
termination_by structural ps => ps

theorem Binding.Renamed.eq (hw : w.Exact) : ∀ {b b' : Binding}, b.Renamed w b' → b = b'
  | .value v, _, h => by
    cases h with
    | value hv => rw [Value.Renamed.eq hw hv]
  | .thunk cell e r, _, h => by
    cases h with
    | thunk hthunk _ => cases hw hthunk; rfl
termination_by structural b => b

theorem Env.Renamed.eq (hw : w.Exact) : ∀ {r r' : List (String × Binding)}, Env.Renamed w r r' → r = r'
  | [], [], _ => rfl
  | [], _ :: _, h => by cases h.1
  | _ :: _, [], h => by cases h.1
  | (name, b) :: r, p' :: r', h => by
    obtain ⟨hname, hb, hr⟩ := Env.renamed_cons_iff.1 h
    rw [Env.Renamed.eq hw hr, Prod.ext hname (Binding.Renamed.eq hw hb)]
termination_by structural r => r

end

end Equality

end Treewalk
