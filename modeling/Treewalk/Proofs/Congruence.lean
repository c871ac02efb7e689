import Mathlib.Data.List.Forall2
import Treewalk.Proofs.Compositional

/-!
# Relations that operations keep

A `Congruence` relates values of one form whose parts are related. It may ask something of the keys of dictionaries, and
of functions it tells only which identities are related.

* Related values look the same: `Congruence.typeName_eq`, `Congruence.display_eq`.
* A comparison takes the same course on related values, as long as it need not tell functions apart
  (`Congruence.course_eq`), or if the congruence is `Exact` about identities.
* Hence **operations give related results, or the same cause** (`Congruence.unary`, `Congruence.binary`,
  `Congruence.insert`).
-/

namespace Treewalk

open Value

/-! ## Lists that are related item by item -/

section Lists

theorem map_eq_map_iff_forall₂ {α β : Type} (f : α → β) (as bs : List α) :
    as.map f = bs.map f ↔ List.Forall₂ (fun a b => f a = f b) as bs := by
  rw [← List.forall₂_eq_eq_eq, List.forall₂_map_left_iff, List.forall₂_map_right_iff]

/-- Pairs are related iff their first and their second parts are. -/
theorem forall₂_pairs_iff {α β : Type} {R : α → α → Prop} {Q : β → β → Prop} {ps ps' : List (α × β)} :
    List.Forall₂ (fun p p' => R p.1 p'.1 ∧ Q p.2 p'.2) ps ps' ↔
      List.Forall₂ R (ps.map (·.1)) (ps'.map (·.1)) ∧ List.Forall₂ Q (ps.map (·.2)) (ps'.map (·.2)) := by
  simp only [List.forall₂_map_left_iff, List.forall₂_map_right_iff]
  constructor
  · exact fun h => ⟨h.imp fun _ _ => And.left, h.imp fun _ _ => And.right⟩
  · rintro ⟨h, h'⟩
    induction h with
    | nil => exact .nil
    | cons hp _ ih =>
      cases h' with
      | cons hp' h' => exact .cons ⟨hp, hp'⟩ (ih h')

end Lists

/-! ## Congruences -/

section Basic

/-- One layer of a resemblance: values of one form, whose parts are related by `V` and whose functions by `C`. -/
inductive Value.Layer (V : Value → Value → Prop) (C : Nat × Expr × Env → Nat × Expr × Env → Prop) :
    Value → Value → Prop
  | unit : Layer V C .unit .unit
  | int (n : Int64) : Layer V C (.int n) (.int n)
  | bool (b : Bool) : Layer V C (.bool b) (.bool b)
  | str (s : String) : Layer V C (.str s) (.str s)
  | list {vs vs' : List Value} : List.Forall₂ V vs vs' → Layer V C (.list vs) (.list vs')
  | dict {ps ps' : List (Value × Value)} : List.Forall₂ (fun p p' => V p.1 p'.1 ∧ V p.2 p'.2) ps ps' →
      Layer V C (.dict ps) (.dict ps')
  | closure {i i' : Nat} {body body' : Expr} {env env' : Env} (self : Option String) (params : List String) :
      C (i, body, env) (i', body', env') →
      Layer V C (.closure i self params body env) (.closure i' self params body' env')
  | primitive {vs vs' : List Value} (f : Builtin) : List.Forall₂ V vs vs' →
      Layer V C (.primitive f vs) (.primitive f vs')

theorem Value.Layer.imp {V : Value → Value → Prop} {C C' : Nat × Expr × Env → Nat × Expr × Env → Prop} {v v' : Value}
    (hC : ∀ {f f' : Nat × Expr × Env}, C f f' → C' f f') (h : Value.Layer V C v v') : Value.Layer V C' v v' := by
  cases h with
  | unit => exact .unit
  | int n => exact .int n
  | bool b => exact .bool b
  | str s => exact .str s
  | list hvs => exact .list hvs
  | dict hps => exact .dict hps
  | closure self params h => exact .closure self params (hC h)
  | primitive f hvs => exact .primitive f hvs

/-- Something that can be asked of the keys of every dictionary, because the operations on dictionaries keep it. -/
structure KeyRule where
  holds : List Value → Prop
  nil : holds []
  insert : ∀ {ps : Dict} (key v : Value), holds (ps.map (·.1)) → holds ((Dict.insert key v ps).map (·.1))
  sublist : ∀ {ks ks' : List Value}, ks.Sublist ks' → holds ks' → holds ks

/-- Any keys will do. -/
def KeyRule.any : KeyRule where
  holds _ := True
  nil := trivial
  insert _ _ _ := trivial
  sublist _ _ := trivial

/-- A relation between values that goes down to the identities of functions. -/
structure Congruence where
  value : Value → Value → Prop
  /-- What relates the identities of functions. -/
  ident : Nat → Nat → Prop
  /-- What is asked of the keys of a dictionary. -/
  keys : KeyRule
  layer : ∀ {v v' : Value}, value v v' → Value.Layer value (fun f f' => ident f.1 f'.1) v v'
  keys_of_dict : ∀ {ps ps' : Dict}, value (.dict ps) (.dict ps') → keys.holds (ps.map (·.1))
  int : ∀ n, value (.int n) (.int n)
  bool : ∀ b, value (.bool b) (.bool b)
  str : ∀ s, value (.str s) (.str s)
  list : ∀ {vs vs' : List Value}, List.Forall₂ value vs vs' → value (.list vs) (.list vs')
  dict : ∀ {ps ps' : Dict}, List.Forall₂ (fun p p' => value p.1 p'.1 ∧ value p.2 p'.2) ps ps' →
    keys.holds (ps.map (·.1)) → value (.dict ps) (.dict ps')

namespace Congruence

variable (S : Congruence)

/-- The pairs of dictionaries, related by their keys and their values. -/
def pair (p p' : Value × Value) : Prop :=
  S.value p.1 p'.1 ∧ S.value p.2 p'.2

/-- The congruence relates identities one to one. -/
def Exact : Prop :=
  ∀ {i i' j j' : Nat}, S.ident i i' → S.ident j j' → (i == j) = (i' == j')

variable {S} {v v' : Value}

theorem typeName_eq (h : S.value v v') : v.typeName = v'.typeName := by
  cases S.layer h with
  | closure self => cases self <;> rfl
  | _ => rfl

theorem isCallable_eq (h : S.value v v') : v.isCallable = v'.isCallable := by
  cases S.layer h <;> rfl

mutual

theorem display_eq : ∀ {v v' : Value}, S.value v v' → v.display = v'.display
  | _, _, hv => by
    cases S.layer hv with
    | unit | int | bool | str | primitive => rfl
    | closure self => cases self <;> rfl
    | list hvs =>
      cases hvs with
      | nil => rfl
      | cons h hs => simp only [display, display_eq h, displayItems_eq hs]
    | dict hps =>
      cases hps with
      | nil => rfl
      | cons h hs => simp only [display, display_eq h.1, display_eq h.2, displayPairs_eq hs]

theorem displayItems_eq : ∀ {vs vs' : List Value} {text : String}, List.Forall₂ S.value vs vs' →
    displayItems vs text = displayItems vs' text
  | [], _, _, h => by cases h; rfl
  | v :: vs, _, _, h => by
    cases h with
    | cons h hs => simp only [displayItems, display_eq h, displayItems_eq hs]

theorem displayPairs_eq : ∀ {ps ps' : List (Value × Value)} {text : String}, List.Forall₂ S.pair ps ps' →
    displayPairs ps text = displayPairs ps' text
  | [], _, _, h => by cases h; rfl
  | p :: ps, _, _, h => by
    cases h with
    | cons h hs => simp only [displayPairs, display_eq h.1, display_eq h.2, displayPairs_eq hs]

end

/-! ## Comparisons -/

/-- A comparison whose answer does not hang on identities, unless the congruence keeps them. -/
def Settles (S : Congruence) (byIdentity : Bool) : Prop :=
  S.Exact ∨ byIdentity = false

theorem courseAll_true : ∀ as bs : List Value, (courseAll as bs true).byIdentity = true
  | [], [] | [], _ :: _ | _ :: _, [] => rfl
  | a :: as, b :: bs => by
    simp only [courseAll, Bool.true_or]
    split
    · exact courseAll_true as bs
    · rfl

theorem coursePairs_true : ∀ ps qs : List (Value × Value), (coursePairs ps qs true).byIdentity = true
  | [], [] | [], _ :: _ | _ :: _, [] => rfl
  | (k, v) :: ps, (l, w) :: qs => by
    simp only [coursePairs, Bool.true_or]
    split
    · split
      · exact coursePairs_true ps qs
      · rfl
    · rfl

/-- What is settled after a comparison of items was settled before it. -/
theorem Settles.of_courseAll {as bs : List Value} {t : Bool} (h : S.Settles (courseAll as bs t).byIdentity) :
    S.Settles t := by
  rcases h with h | h
  · exact Or.inl h
  · cases t with
    | false => exact Or.inr rfl
    | true => rw [courseAll_true] at h; cases h

theorem Settles.of_coursePairs {ps qs : List (Value × Value)} {t : Bool}
    (h : S.Settles (coursePairs ps qs t).byIdentity) : S.Settles t := by
  rcases h with h | h
  · exact Or.inl h
  · cases t with
    | false => exact Or.inr rfl
    | true => rw [coursePairs_true] at h; cases h

theorem Settles.right {s t : Bool} (h : S.Settles (s || t)) : S.Settles t := by
  rcases h with h | h
  · exact Or.inl h
  · exact Or.inr (Bool.or_eq_false_iff.1 h).2

theorem Settles.left {s t : Bool} (h : S.Settles (s || t)) : S.Settles s := by
  rcases h with h | h
  · exact Or.inl h
  · exact Or.inr (Bool.or_eq_false_iff.1 h).1

mutual

/-- **A settled comparison takes the same course on related values.** -/
theorem course_eq : ∀ {a b a' b' : Value}, S.value a a' → S.value b b' → S.Settles (course a b).byIdentity →
    course a' b' = course a b
  | _, _, _, _, ha, hb, hs => by
    cases S.layer ha with
    | unit | int | bool | str => cases S.layer hb <;> rfl
    | list has =>
      cases S.layer hb with
      | list hbs =>
        simp only [course, has.length_eq, hbs.length_eq] at hs ⊢
        split
        · next hl => rw [if_pos hl] at hs; exact courseAll_eq has hbs hs
        · rfl
      | _ => rfl
    | dict hps =>
      cases S.layer hb with
      | dict hqs =>
        simp only [course, hps.length_eq, hqs.length_eq] at hs ⊢
        split
        · next hl => rw [if_pos hl] at hs; exact coursePairs_eq hps hqs hs
        · rfl
      | _ => rfl
    | closure self params hf =>
      cases S.layer hb with
      | closure self' params' hg =>
        rcases hs with hexact | hs
        · simp only [course, hexact hf hg]
        · simp only [course] at hs ⊢
          simp [hs]
      | _ => rfl
    | primitive f has =>
      cases S.layer hb with
      | primitive g hbs =>
        simp only [course, has.length_eq, hbs.length_eq] at hs ⊢
        split
        · next hl => rw [if_pos hl] at hs; exact courseAll_eq has hbs hs
        · rfl
      | _ => rfl
termination_by a => sizeOf a

theorem courseAll_eq : ∀ {as bs as' bs' : List Value} {t : Bool}, List.Forall₂ S.value as as' →
    List.Forall₂ S.value bs bs' → S.Settles (courseAll as bs t).byIdentity →
    courseAll as' bs' t = courseAll as bs t
  | [], _, _, _, _, ha, hb, _ => by cases ha; cases hb <;> rfl
  | a :: as, [], _, _, _, ha, hb, _ => by cases ha; cases hb; rfl
  | a :: as, b :: bs, _, _, t, ha, hb, hs => by
    cases ha with
    | cons ha has =>
      cases hb with
      | cons hb hbs =>
        simp only [courseAll] at hs ⊢
        by_cases heq : (course a b).equal
        · rw [if_pos heq] at hs
          rw [course_eq ha hb hs.of_courseAll.right, if_pos heq, if_pos heq]
          exact courseAll_eq has hbs hs
        · rw [if_neg heq] at hs
          rw [course_eq ha hb hs.right, if_neg heq, if_neg heq]
termination_by as => sizeOf as

theorem coursePairs_eq : ∀ {ps qs ps' qs' : List (Value × Value)} {t : Bool}, List.Forall₂ S.pair ps ps' →
    List.Forall₂ S.pair qs qs' → S.Settles (coursePairs ps qs t).byIdentity →
    coursePairs ps' qs' t = coursePairs ps qs t
  | [], _, _, _, _, hp, hq, _ => by cases hp; cases hq <;> rfl
  | p :: ps, [], _, _, _, hp, hq, _ => by cases hp; cases hq; rfl
  | (k, v) :: ps, (l, w) :: qs, _, _, t, hp, hq, hs => by
    cases hp with
    | cons hp hps =>
      cases hq with
      | cons hq hqs =>
        simp only [coursePairs] at hs ⊢
        by_cases hk : (course k l).equal
        · by_cases hv : (course v w).equal
          · rw [if_pos hk, if_pos hv] at hs
            rw [course_eq hp.1 hq.1 hs.of_coursePairs.left.right, if_pos hk, if_pos hk,
              course_eq hp.2 hq.2 hs.of_coursePairs.right, if_pos hv, if_pos hv]
            exact coursePairs_eq hps hqs hs
          · rw [if_pos hk, if_neg hv] at hs
            rw [course_eq hp.1 hq.1 hs.left.right, if_pos hk, if_pos hk, course_eq hp.2 hq.2 hs.right,
              if_neg hv, if_neg hv]
        · rw [if_neg hk] at hs
          rw [course_eq hp.1 hq.1 hs.right, if_neg hk, if_neg hk]
termination_by ps => sizeOf ps

end

theorem beq_eq {a b a' b' : Value} (ha : S.value a a') (hb : S.value b b') (hs : S.Settles (a.testsIdentity b)) :
    (a' == b') = (a == b) := by
  show beq a' b' = beq a b
  rw [← equal_course, ← equal_course, course_eq ha hb hs]

theorem testsIdentity_eq {a b a' b' : Value} (ha : S.value a a') (hb : S.value b b')
    (hs : S.Settles (a.testsIdentity b)) : a'.testsIdentity b' = a.testsIdentity b := by
  unfold Value.testsIdentity
  rw [course_eq ha hb hs]

end Congruence

end Basic

/-! ## Answers of operations -/

section Answers

/-- Operations answer alike: with related results, or with the same cause. -/
inductive SameAnswer {α β : Type} (R : α → β → Prop) : Except Cause α → Except Cause β → Prop
  | ok {a : α} {b : β} : R a b → SameAnswer R (.ok a) (.ok b)
  | error (cause : Cause) : SameAnswer R (.error cause) (.error cause)

theorem SameAnswer.bind {α β α' β' : Type} {R : α → β → Prop} {R' : α' → β' → Prop} {x : Except Cause α}
    {y : Except Cause β} {f : α → Except Cause α'} {g : β → Except Cause β'} (h : SameAnswer R x y)
    (hf : ∀ a b, R a b → SameAnswer R' (f a) (g b)) : SameAnswer R' (x >>= f) (y >>= g) := by
  cases h with
  | ok h => exact hf _ _ h
  | error cause => exact .error cause

theorem Dict.erase_sublist (key : Value) (dict : Dict) : (dict.erase key).Sublist dict := by
  induction dict with
  | nil => exact .slnil
  | cons p dict ih =>
    simp only [Dict.erase]
    split
    · exact List.sublist_cons_self p dict
    · exact ih.cons_cons p

namespace Congruence

variable {S : Congruence} {a a' b b' : Value}

theorem fit (operation : String) (n : Int) : SameAnswer S.value (fit operation n) (fit operation n) := by
  unfold Treewalk.fit
  split
  · exact .ok (S.int _)
  · exact .error _

theorem items (h : S.value a a') : SameAnswer (List.Forall₂ S.value) a.items a'.items := by
  cases S.layer h with
  | list hvs => exact .ok hvs
  | closure self => cases self <;> exact .error _
  | _ => exact .error _

theorem length (h : S.value a a') : SameAnswer S.value a.length a'.length := by
  cases S.layer h with
  | list hvs => simp only [Value.length, hvs.length_eq]; exact fit _ _
  | dict hps => simp only [Value.length, hps.length_eq]; exact fit _ _
  | str s => exact fit _ _
  | closure self => cases self <;> exact .error _
  | _ => exact .error _

theorem unary (op : Unary) (h : S.value a a') : SameAnswer S.value (op.apply a) (op.apply a') := by
  cases op with
  | not =>
    cases S.layer h with
    | bool p => exact .ok (S.bool _)
    | closure self => cases self <;> exact .error _
    | _ => exact .error _
  | neg =>
    cases S.layer h with
    | int n => exact fit _ _
    | closure self => cases self <;> exact .error _
    | _ => exact .error _
  | head =>
    refine SameAnswer.bind (items h) fun vs vs' hvs => ?_
    cases hvs with
    | nil => exact .error _
    | cons hv _ => exact .ok hv
  | tail =>
    refine SameAnswer.bind (items h) fun vs vs' hvs => ?_
    cases hvs with
    | nil => exact .error _
    | cons _ hvs => exact .ok (S.list hvs)

/-! ### Operators -/

theorem mismatch (op : Operator) (ha : S.value a a') (hb : S.value b b') :
    SameAnswer S.value (op.mismatch a b) (op.mismatch a' b') := by
  unfold Operator.mismatch
  rw [typeName_eq ha, typeName_eq hb]
  exact .error _

/-- An operator that has a meaning only for integers. -/
theorem ints {f : Int64 → Int64 → Except Cause Value} (op : Operator)
    (hf : ∀ m n, SameAnswer S.value (f m n) (f m n)) : S.value a a' → S.value b b' →
    SameAnswer S.value
      (match a, b with
      | .int m, .int n => f m n
      | _, _ => op.mismatch a b)
      (match a', b' with
      | .int m, .int n => f m n
      | _, _ => op.mismatch a' b') := by
  intro ha hb
  have hmis := mismatch op ha hb
  cases S.layer ha with
  | int m =>
    cases S.layer hb with
    | int n => exact hf m n
    | _ => exact hmis
  | _ => exact hmis

/-- An operator that has a meaning only for truth values. -/
theorem bools {f : Bool → Bool → Bool} (op : Operator) : S.value a a' → S.value b b' →
    SameAnswer S.value
      (match a, b with
      | .bool p, .bool q => .ok (.bool (f p q))
      | _, _ => op.mismatch a b)
      (match a', b' with
      | .bool p, .bool q => .ok (.bool (f p q))
      | _, _ => op.mismatch a' b') := by
  intro ha hb
  have hmis := mismatch op ha hb
  cases S.layer ha with
  | bool p =>
    cases S.layer hb with
    | bool q => exact .ok (S.bool _)
    | _ => exact hmis
  | _ => exact hmis

/-- An operator that has a meaning only for the ordered types. -/
theorem ordered (op : Operator) : S.value a a' → S.value b b' →
    SameAnswer S.value
      (match a, b with
      | .int m, .int n => .ok (.bool (op.compares m n))
      | .bool p, .bool q => .ok (.bool (op.compares p q))
      | .str s, .str t => .ok (.bool (op.compares s t))
      | _, _ => op.mismatch a b)
      (match a', b' with
      | .int m, .int n => .ok (.bool (op.compares m n))
      | .bool p, .bool q => .ok (.bool (op.compares p q))
      | .str s, .str t => .ok (.bool (op.compares s t))
      | _, _ => op.mismatch a' b') := by
  intro ha hb
  have hmis := mismatch op ha hb
  cases S.layer ha with
  | int m =>
    cases S.layer hb with
    | int n => exact .ok (S.bool _)
    | _ => exact hmis
  | bool p =>
    cases S.layer hb with
    | bool q => exact .ok (S.bool _)
    | _ => exact hmis
  | str s =>
    cases S.layer hb with
    | str t => exact .ok (S.bool _)
    | _ => exact hmis
  | _ => exact hmis

theorem concat (ha : S.value a a') (hb : S.value b b') :
    SameAnswer S.value (Operator.concat.apply a b) (Operator.concat.apply a' b') := by
  have hmis := mismatch .concat ha hb
  cases S.layer ha with
  | str s =>
    cases S.layer hb with
    | str t => exact .ok (S.str _)
    | _ => exact hmis
  | list hvs =>
    cases S.layer hb with
    | list hws => exact .ok (S.list (List.rel_append hvs hws))
    | _ => exact hmis
  | _ => exact hmis

theorem operator (op : Operator) (ha : S.value a a') (hb : S.value b b') (hs : S.Settles (op.testsIdentity a b)) :
    SameAnswer S.value (op.apply a b) (op.apply a' b') := by
  cases op with
  | eq | ne =>
    simp only [Operator.apply, beq_eq ha hb hs]
    exact .ok (S.bool _)
  | lt | le | gt | ge => exact ordered _ ha hb
  | add | sub | mul => exact ints _ (fun m n => fit _ _) ha hb
  | div =>
    refine ints .div (fun m n => ?_) ha hb
    split
    · exact .error _
    · exact fit _ _
  | mod =>
    refine ints .mod (fun m n => ?_) ha hb
    split
    · exact .error _
    · exact SameAnswer.bind (fit (S := S) _ _) fun _ _ _ => fit _ _
  | and | or => exact bools _ ha hb
  | concat => exact concat ha hb

/-! ### Dictionaries -/

section Dictionaries

variable {key key' : Value} {ps ps' : Dict}

/-- A search that is settled is settled at the first key, and at the others if the first is not the one. -/
theorem Settles.search {k v : Value} (h : S.Settles (Dict.testsIdentity key ((k, v) :: ps))) :
    S.Settles (k.testsIdentity key) ∧ (¬(k == key) = true → S.Settles (Dict.testsIdentity key ps)) := by
  refine ⟨h.left, fun hk => ?_⟩
  rw [Bool.not_eq_true] at hk
  simp only [Dict.testsIdentity, hk, Bool.not_false, Bool.true_and] at h
  exact h.right

theorem search_eq (hkey : S.value key key') (hps : List.Forall₂ S.pair ps ps')
    (hs : S.Settles (Dict.testsIdentity key ps)) : Dict.testsIdentity key' ps' = Dict.testsIdentity key ps := by
  induction hps with
  | nil => rfl
  | @cons p p' ps ps' hp hps ih =>
    obtain ⟨hhead, htail⟩ := hs.search
    simp only [Dict.testsIdentity, beq_eq hp.1 hkey hhead, testsIdentity_eq hp.1 hkey hhead]
    by_cases hk : (p.1 == key) = true
    · simp [hk]
    · rw [ih (htail hk)]

theorem get? (hkey : S.value key key') (hps : List.Forall₂ S.pair ps ps')
    (hs : S.Settles (Dict.testsIdentity key ps)) : Option.Rel S.value (Dict.get? key ps) (Dict.get? key' ps') := by
  induction hps with
  | nil => exact .none
  | @cons p p' ps ps' hp hps ih =>
    obtain ⟨hhead, htail⟩ := hs.search
    simp only [Dict.get?, beq_eq hp.1 hkey hhead]
    split
    · exact .some hp.2
    · next hk => exact ih (htail hk)

theorem contains_eq (hkey : S.value key key') (hps : List.Forall₂ S.pair ps ps')
    (hs : S.Settles (Dict.testsIdentity key ps)) : Dict.contains key' ps' = Dict.contains key ps := by
  rw [← Dict.isSome_get?, ← Dict.isSome_get?]
  have h := get? hkey hps hs
  revert h
  cases Dict.get? key ps <;> cases Dict.get? key' ps' <;> intro h <;> cases h
  · rfl
  · rfl

theorem insertPair {v v' : Value} (hkey : S.value key key') (hv : S.value v v') (hps : List.Forall₂ S.pair ps ps')
    (hs : S.Settles (Dict.testsIdentity key ps)) :
    List.Forall₂ S.pair (Dict.insert key v ps) (Dict.insert key' v' ps') := by
  induction hps with
  | nil => exact .cons ⟨hkey, hv⟩ .nil
  | @cons p p' ps ps' hp hps ih =>
    obtain ⟨hhead, htail⟩ := hs.search
    simp only [Dict.insert, beq_eq hp.1 hkey hhead]
    split
    · exact .cons ⟨hkey, hv⟩ hps
    · next hk => exact .cons hp (ih (htail hk))

theorem erasePair (hkey : S.value key key') (hps : List.Forall₂ S.pair ps ps')
    (hs : S.Settles (Dict.testsIdentity key ps)) :
    List.Forall₂ S.pair (Dict.erase key ps) (Dict.erase key' ps') := by
  induction hps with
  | nil => exact .nil
  | @cons p p' ps ps' hp hps ih =>
    obtain ⟨hhead, htail⟩ := hs.search
    simp only [Dict.erase, beq_eq hp.1 hkey hhead]
    split
    · exact hps
    · next hk => exact .cons hp (ih (htail hk))

/-- A search in a value is a search in its pairs, if it has any. -/
theorem searchTestsIdentity_eq {dict dict' : Value} (hkey : S.value key key') (hdict : S.value dict dict')
    (hs : S.Settles (key.searchTestsIdentity dict)) :
    key'.searchTestsIdentity dict' = key.searchTestsIdentity dict := by
  cases S.layer hdict with
  | dict hps => exact search_eq hkey hps hs
  | _ => rfl

/-- An operation on the pairs of a dictionary in which the search for a key is settled. -/
theorem onPairs {dict dict' : Value} {f f' : Dict → Except Cause Value} (hdict : S.value dict dict')
    (hs : S.Settles (key.searchTestsIdentity dict))
    (hf : ∀ {ps ps' : Dict}, List.Forall₂ S.pair ps ps' → S.keys.holds (ps.map (·.1)) →
      S.Settles (Dict.testsIdentity key ps) → SameAnswer S.value (f ps) (f' ps')) :
    SameAnswer S.value (dict.pairs >>= f) (dict'.pairs >>= f') := by
  cases S.layer hdict with
  | dict hps => exact hf hps (S.keys_of_dict hdict) hs
  | closure self => cases self <;> exact .error _
  | _ => exact .error _

theorem insert {v v' dict dict' : Value} (hkey : S.value key key') (hv : S.value v v') (hdict : S.value dict dict')
    (hs : S.Settles (key.searchTestsIdentity dict)) :
    SameAnswer S.value (Value.insert key v dict) (Value.insert key' v' dict') :=
  onPairs hdict hs fun hps hkeys hs => .ok (S.dict (insertPair hkey hv hps hs) (S.keys.insert key v hkeys))

end Dictionaries

theorem binary_testsIdentity_eq (op : Binary) (ha : S.value a a') (hb : S.value b b')
    (hs : S.Settles (op.testsIdentity a b)) : op.testsIdentity a' b' = op.testsIdentity a b := by
  cases op with
  | operator op =>
    cases op with
    | eq | ne => exact testsIdentity_eq ha hb hs
    | _ => rfl
  | cons => rfl
  | delete | hasKey | getKey => exact searchTestsIdentity_eq ha hb hs

/-- **A binary operation answers alike on related values**, unless it has to tell functions apart. -/
theorem binary (op : Binary) (ha : S.value a a') (hb : S.value b b') (hs : S.Settles (op.testsIdentity a b)) :
    SameAnswer S.value (op.apply a b) (op.apply a' b') := by
  cases op with
  | operator op => exact operator op ha hb hs
  | cons => exact (items hb).bind fun vs vs' hvs => .ok (S.list (.cons ha hvs))
  | delete =>
    refine onPairs hb hs fun {ps ps'} hps hkeys hs => .ok (S.dict (erasePair ha hps hs) ?_)
    exact S.keys.sublist ((Dict.erase_sublist a ps).map _) hkeys
  | hasKey =>
    refine onPairs hb hs fun hps _ hs => ?_
    rw [contains_eq ha hps hs]
    exact .ok (S.bool _)
  | getKey =>
    refine onPairs hb hs fun {ps ps'} hps _ hs => ?_
    have h := get? ha hps hs
    revert h
    cases Dict.get? a ps <;> cases Dict.get? a' ps' <;> intro h <;> cases h
    case none.none =>
      rw [display_eq ha]
      exact .error _
    case some.some h => exact .ok h

end Congruence

end Answers

end Treewalk
