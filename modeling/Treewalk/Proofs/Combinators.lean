import Mathlib.Data.List.Induction
import Treewalk.Proofs.Compositional

/-!
# Combinators over collections

A combinator runs its function at the elements of a collection, from left to right, and stops at the first run that
gives no result.

* Over a list the combinators respect concatenation (`combine_map_append`, `combine_filter_append`,
  `combine_fold_append`), so their equations on lists of one element say what they do on all.
* **The first stop** (`combine_stops_iff`): a combinator ends without a result just when it has one on some elements in
  front and the function has none at the next. It then ends as the function did there, in the same store, whatever
  elements come after.
* Over a dictionary the function runs as over the list of the values (`combine_map_dict`, `combine_filter_dict`,
  `combine_fold_dict`).
* **The laws of the combinators** (`combinators_lawful`) are these, for every function that can be called.
-/

namespace Treewalk

open Run

/-! ## Loops with a test -/

section Loops

variable {α β : Type}

theorem filterAuxM_eq (f : α → Run Bool) (as kept : List α) :
    as.filterAuxM f kept = (· ++ kept) <$> as.filterAuxM f [] := by
  induction as generalizing kept with
  | nil => simp [List.filterAuxM]
  | cons a as ih =>
    simp only [List.filterAuxM, map_bind]
    refine bind_congr fun keep => ?_
    rw [ih (cond keep (a :: kept) kept), ih (cond keep [a] [])]
    cases keep <;> simp

theorem filterM_nil (f : α → Run Bool) : [].filterM f = pure [] := by
  simp [List.filterM, List.filterAuxM]

theorem filterM_cons (f : α → Run Bool) (a : α) (as : List α) :
    (a :: as).filterM f = do
      let keep ← f a
      let rest ← as.filterM f
      return if keep then a :: rest else rest := by
  simp only [List.filterM, List.filterAuxM, bind_assoc]
  refine bind_congr fun keep => ?_
  rw [filterAuxM_eq]
  cases keep <;> simp

theorem filterM_append (f : α → Run Bool) (as bs : List α) :
    (as ++ bs).filterM f = do
      let us ← as.filterM f
      let ws ← bs.filterM f
      return us ++ ws := by
  induction as with
  | nil => simp [filterM_nil]
  | cons a as ih =>
    simp only [List.cons_append, filterM_cons, ih, bind_assoc, pure_bind]
    refine bind_congr fun keep => bind_congr fun us => bind_congr fun ws => ?_
    cases keep <;> rfl

/-- The items whose verdict is good. -/
def select (items : List α) (verdicts : List Bool) : List α :=
  ((items.zip verdicts).filter (·.2)).map (·.1)

theorem select_cons (a : α) (as : List α) (keep : Bool) (verdicts : List Bool) :
    select (a :: as) (keep :: verdicts) = if keep then a :: select as verdicts else select as verdicts := by
  cases keep <;> simp [select]

/-- A filter asks for the verdict on each item and then selects. -/
theorem filterM_eq_select (f : α → Run Bool) (as : List α) : as.filterM f = select as <$> as.mapM f := by
  induction as with
  | nil => simp [filterM_nil, select]
  | cons a as ih =>
    simp only [filterM_cons, ih, List.mapM_cons, map_bind, map_pure, bind_map_left, select_cons]

/-- A loop over the second parts of pairs, which keeps the first. -/
theorem mapM_pair (f : β → Run β) (pairs : List (α × β)) :
    (pairs.mapM fun p => do return (p.1, ← f p.2)) =
      (fun bs => (pairs.map (·.1)).zip bs) <$> (pairs.map (·.2)).mapM f := by
  induction pairs with
  | nil => simp
  | cons p pairs ih =>
    simp only [List.mapM_cons, List.map_cons, ih, bind_assoc, pure_bind, map_bind, map_pure, bind_map_left,
      List.zip_cons_cons]

end Loops

/-! ## Outcomes without a result -/

section Stops

/-- An outcome without a result. -/
def Outcome.Stops {α : Type} (o : Outcome α) : Prop :=
  ∀ a σ, o ≠ .done a σ

variable {m : Run Value} {f : Value → Run Value} {σ : Store} {o : Outcome Value}

/-- Two runs in a row stop just when one of them does. -/
theorem bind_eq_iff_of_stops (ho : o.Stops) :
    (m >>= f) σ = o ↔ m σ = o ∨ ∃ a σ₁, m σ = .done a σ₁ ∧ f a σ₁ = o := by
  rw [bind_apply]
  cases hm : m σ with
  | done a σ₁ => simp [(ho a σ₁).symm]
  | failed => simp
  | outOfFuel => simp

/-- What is made of the result does not matter where there is none. -/
theorem map_eq_iff_of_stops {β : Type} {m : Run β} (g h : β → Value) (ho : o.Stops) :
    (g <$> m) σ = o ↔ (h <$> m) σ = o := by
  simp only [map_eq_pure_bind, bind_apply]
  cases m σ with
  | done b σ₁ => exact iff_of_false (ho _ _).symm (ho _ _).symm
  | failed => rfl
  | outOfFuel => rfl

end Stops

theorem binary_concat (us ws : List Value) :
    binary (.operator .concat) (.list us) (.list ws) = pure (.list (us ++ ws)) := by
  funext σ
  simp only [binary, bind_apply, noteIdentityTest, Binary.testsIdentity, Operator.testsIdentity, Bool.or_false]
  rfl

/-! ## Lists -/

namespace Interpreter

variable (I : Interpreter) {f : Value} (hf : f.isCallable) (stack : CallStack)

/-- The run of the function at the element `v`, where `acc` is the result on the elements before. -/
def visit (op : Combinator) (f acc v : Value) : Run Value :=
  match op with
  | .map => I.apply f [v] stack
  | .filter => .bool <$> I.test f v stack
  | .fold => I.apply f [acc, v] stack

/-- The result on some elements and the element `v`, where the function gives `w` at `v`. -/
def gather (op : Combinator) (acc v w : Value) : Value :=
  match op, w with
  | .map, w => .list (acc.elements ++ [w])
  | .filter, .bool true => .list (acc.elements ++ [v])
  | .filter, _ => acc
  | .fold, w => w

section Lists

include hf

theorem combine_map_list (vs : List Value) :
    I.combine .map f (.list vs) stack = .list <$> vs.mapM fun v => I.apply f [v] stack := by
  simp [combine, hf, mapOver]

theorem combine_filter_list (vs : List Value) :
    I.combine .filter f (.list vs) stack = .list <$> vs.filterM fun v => I.test f v stack := by
  simp [combine, hf, filterOver]

theorem combine_fold_nil : I.combine .fold f (.list []) stack = fail .emptyFold := by
  simp [combine, hf, foldOver, foldAll]

theorem combine_fold_cons (v : Value) (vs : List Value) :
    I.combine .fold f (.list (v :: vs)) stack = vs.foldlM (fun acc v => I.apply f [acc, v] stack) v := by
  simp [combine, hf, foldOver, foldAll]

theorem combine_map_append (as bs : List Value) :
    I.combine .map f (.list (as ++ bs)) stack = (do
      let us ← I.combine .map f (.list as) stack
      let ws ← I.combine .map f (.list bs) stack
      binary (.operator .concat) us ws) := by
  simp only [I.combine_map_list hf, List.mapM_append, map_bind, map_pure, bind_map_left, binary_concat]

theorem combine_filter_append (as bs : List Value) :
    I.combine .filter f (.list (as ++ bs)) stack = (do
      let us ← I.combine .filter f (.list as) stack
      let ws ← I.combine .filter f (.list bs) stack
      binary (.operator .concat) us ws) := by
  simp only [I.combine_filter_list hf, filterM_append, map_bind, map_pure, bind_map_left, binary_concat]

theorem combine_fold_append {as : List Value} (has : as ≠ []) (bs : List Value) :
    I.combine .fold f (.list (as ++ bs)) stack = (do
      let r ← I.combine .fold f (.list as) stack
      I.combine .fold f (.list (r :: bs)) stack) := by
  cases as with
  | nil => exact absurd rfl has
  | cons a as => simp only [List.cons_append, I.combine_fold_cons hf, List.foldlM_append]

/-- **The step of a combinator**: past the elements before, it visits the next one. -/
theorem combine_append_singleton {op : Combinator} {vs : List Value} (hvs : op = .fold → vs ≠ []) (v : Value) :
    I.combine op f (.list (vs ++ [v])) stack = (do
      let acc ← I.combine op f (.list vs) stack
      let w ← I.visit stack op f acc v
      return gather op acc v w) := by
  cases op with
  | map =>
    simp only [I.combine_map_list hf, List.mapM_append, List.mapM_cons, List.mapM_nil, map_bind, map_pure,
      bind_map_left, bind_assoc, pure_bind, visit, gather, Value.elements]
  | filter =>
    simp only [I.combine_filter_list hf, filterM_append, filterM_cons, filterM_nil, map_bind, map_pure, bind_map_left,
      bind_assoc, pure_bind, visit, gather, Value.elements]
    refine bind_congr fun us => bind_congr fun keep => ?_
    cases keep
    · rw [if_neg Bool.false_ne_true, List.append_nil]
    · rw [if_pos rfl]
  | fold =>
    rw [I.combine_fold_append hf stack (hvs rfl)]
    simp only [I.combine_fold_cons hf, List.foldlM_cons, List.foldlM_nil, visit, gather]

theorem combine_append_of_stops {op : Combinator} {vs : List Value} {σ : Store} {o : Outcome Value} (ho : o.Stops)
    (hvs : op = .fold → vs ≠ []) (h : I.combine op f (.list vs) stack σ = o) (after : List Value) :
    I.combine op f (.list (vs ++ after)) stack σ = o := by
  obtain ⟨next, hnext⟩ : ∃ next, I.combine op f (.list (vs ++ after)) stack =
      I.combine op f (.list vs) stack >>= next := by
    cases op with
    | map => exact ⟨_, I.combine_map_append hf stack vs after⟩
    | filter => exact ⟨_, I.combine_filter_append hf stack vs after⟩
    | fold => exact ⟨_, I.combine_fold_append hf stack (hvs rfl) after⟩
  rw [hnext, bind_eq_iff_of_stops ho]
  exact .inl h

/-- **The first stop**: a combinator without a result ends as its function does at the first element where that has
none. Only the fold of no elements fails by itself. -/
theorem combine_stops_iff (op : Combinator) (vs : List Value) (σ : Store) {o : Outcome Value} (ho : o.Stops) :
    I.combine op f (.list vs) stack σ = o ↔
      (op = .fold ∧ vs = [] ∧ o = .failed ⟨.emptyFold, none⟩ σ) ∨
      ∃ before v after acc σ₁, vs = before ++ v :: after ∧ (op = .fold → before ≠ []) ∧
        I.combine op f (.list before) stack σ = .done acc σ₁ ∧ I.visit stack op f acc v σ₁ = o := by
  constructor
  · intro h
    induction vs using List.reverseRecOn with
    | nil =>
      cases op with
      | map =>
        rw [I.combine_map_list hf, List.mapM_nil] at h
        exact absurd h.symm (ho _ _)
      | filter =>
        rw [I.combine_filter_list hf, filterM_nil] at h
        exact absurd h.symm (ho _ _)
      | fold =>
        rw [I.combine_fold_nil hf] at h
        exact .inl ⟨rfl, rfl, h.symm⟩
    | append_singleton vs v ih =>
      -- either the elements before the last stop the combinator, or the visit of the last does
      by_cases hvs : op = .fold → vs ≠ []
      · rw [I.combine_append_singleton hf stack hvs, bind_eq_iff_of_stops ho] at h
        obtain h | ⟨acc, σ₁, hacc, h⟩ := h
        · obtain ⟨hop, hnil, -⟩ | ⟨before, w, after, acc, σ₁, rfl, hbefore, hacc, hw⟩ := ih h
          · exact absurd hnil (hvs hop)
          · exact .inr ⟨before, w, after ++ [v], acc, σ₁, by simp, hbefore, hacc, hw⟩
        · rw [bind_eq_iff_of_stops ho] at h
          obtain h | ⟨w, σ₂, -, h⟩ := h
          · exact .inr ⟨vs, v, [], acc, σ₁, rfl, hvs, hacc, h⟩
          · exact absurd h.symm (ho _ _)
      · -- a fold of one element visits nothing
        obtain ⟨rfl, rfl⟩ : op = .fold ∧ vs = [] := by
          simpa only [Classical.not_imp, not_not] using hvs
        rw [List.nil_append, I.combine_fold_cons hf, List.foldlM_nil] at h
        exact absurd h.symm (ho _ _)
  · rintro (⟨rfl, rfl, rfl⟩ | ⟨before, v, after, acc, σ₁, rfl, hbefore, hacc, hv⟩)
    · rw [I.combine_fold_nil hf]
      rfl
    · have hstop : I.combine op f (.list (before ++ [v])) stack σ = o := by
        rw [I.combine_append_singleton hf stack hbefore, bind_eq_iff_of_stops ho]
        refine .inr ⟨acc, σ₁, hacc, ?_⟩
        rw [bind_eq_iff_of_stops ho]
        exact .inl hv
      rw [← List.singleton_append, ← List.append_assoc]
      exact I.combine_append_of_stops hf stack ho (fun _ => by simp) hstop after

end Lists

/-! ## Dictionaries -/

section Dictionaries

include hf

theorem combine_map_dict (pairs : Dict) :
    I.combine .map f (.dict pairs) stack =
      (fun ws => .dict ((pairs.map (·.1)).zip ws.elements)) <$> I.combine .map f (.list (pairs.map (·.2))) stack := by
  simp only [combine, hf, if_true, mapOver, mapM_pair fun v => I.apply f [v] stack,
    Functor.map_map, Value.elements]

theorem combine_filter_eq_select (vs : List Value) :
    I.combine .filter f (.list vs) stack =
      (fun keeps => .list (select vs keeps)) <$> vs.mapM fun v => I.test f v stack := by
  rw [I.combine_filter_list hf, filterM_eq_select, Functor.map_map]

theorem combine_filter_dict (pairs : Dict) :
    I.combine .filter f (.dict pairs) stack =
      (fun keeps => .dict (select pairs keeps)) <$> (pairs.map (·.2)).mapM fun v => I.test f v stack := by
  simp only [combine, hf, if_true, filterOver, filterM_eq_select, Functor.map_map, List.mapM_map, Function.comp_def]

theorem combine_fold_dict (pairs : Dict) :
    I.combine .fold f (.dict pairs) stack = I.combine .fold f (.list (pairs.map (·.2))) stack := by
  simp only [combine, hf, if_true, foldOver]

theorem length_of_combine_map {vs : List Value} {w : Value} {σ σ' : Store}
    (h : I.combine .map f (.list vs) stack σ = .done w σ') : ∃ ws, w = .list ws ∧ ws.length = vs.length := by
  rw [I.combine_map_list hf, map_eq_pure_bind, bind_apply] at h
  split at h
  case h_1 ws _ hws =>
    cases h
    exact ⟨ws, rfl, length_of_mapM hws⟩
  case h_2 | h_3 => cases h

/-- Over a dictionary a combinator stops just when it stops over the values, and in the same way. -/
theorem combine_dict_stops_iff (op : Combinator) (pairs : Dict) (σ : Store) {o : Outcome Value} (ho : o.Stops) :
    I.combine op f (.dict pairs) stack σ = o ↔ I.combine op f (.list (pairs.map (·.2))) stack σ = o := by
  cases op with
  | map =>
    rw [I.combine_map_dict hf]
    simpa only [id_map] using map_eq_iff_of_stops _ id ho
  | filter =>
    rw [I.combine_filter_dict hf, I.combine_filter_eq_select hf]
    exact map_eq_iff_of_stops _ _ ho
  | fold => rw [I.combine_fold_dict hf]

end Dictionaries

/-! ## The laws -/

/-- What the combinators do with the function `f`, over lists and over dictionaries. -/
structure CombinatorLaws (f : Value) : Prop where
  map_nil : I.combine .map f (.list []) stack = pure (.list [])
  map_singleton : ∀ v, I.combine .map f (.list [v]) stack = (fun w => .list [w]) <$> I.apply f [v] stack
  map_append : ∀ as bs, I.combine .map f (.list (as ++ bs)) stack = do
    let us ← I.combine .map f (.list as) stack
    let ws ← I.combine .map f (.list bs) stack
    binary (.operator .concat) us ws
  filter_nil : I.combine .filter f (.list []) stack = pure (.list [])
  filter_singleton : ∀ v, I.combine .filter f (.list [v]) stack =
    (fun keep => .list (if keep then [v] else [])) <$> I.test f v stack
  filter_append : ∀ as bs, I.combine .filter f (.list (as ++ bs)) stack = do
    let us ← I.combine .filter f (.list as) stack
    let ws ← I.combine .filter f (.list bs) stack
    binary (.operator .concat) us ws
  fold_nil : I.combine .fold f (.list []) stack = fail .emptyFold
  fold_singleton : ∀ v, I.combine .fold f (.list [v]) stack = pure v
  fold_pair : ∀ u v, I.combine .fold f (.list [u, v]) stack = I.apply f [u, v] stack
  fold_append : ∀ as bs, as ≠ [] → I.combine .fold f (.list (as ++ bs)) stack = do
    let r ← I.combine .fold f (.list as) stack
    I.combine .fold f (.list (r :: bs)) stack
  /-- Without a result, the outcome is that of the first visit that has none. -/
  stops_iff : ∀ op vs σ o, o.Stops → (I.combine op f (.list vs) stack σ = o ↔
    (op = .fold ∧ vs = [] ∧ o = .failed ⟨.emptyFold, none⟩ σ) ∨
    ∃ before v after acc σ₁, vs = before ++ v :: after ∧ (op = .fold → before ≠ []) ∧
      I.combine op f (.list before) stack σ = .done acc σ₁ ∧ I.visit stack op f acc v σ₁ = o)
  /-- Every key is paired with the new value. -/
  map_dict : ∀ pairs : Dict, I.combine .map f (.dict pairs) stack =
    (fun ws => .dict ((pairs.map (·.1)).zip ws.elements)) <$> I.combine .map f (.list (pairs.map (·.2))) stack
  map_length : ∀ vs w σ σ', I.combine .map f (.list vs) stack σ = .done w σ' →
    ∃ ws, w = .list ws ∧ ws.length = vs.length
  /-- The verdicts are those on the values, over a list and over a dictionary. -/
  filter_list : ∀ vs, I.combine .filter f (.list vs) stack =
    (fun keeps => .list (select vs keeps)) <$> vs.mapM fun v => I.test f v stack
  filter_dict : ∀ pairs : Dict, I.combine .filter f (.dict pairs) stack =
    (fun keeps => .dict (select pairs keeps)) <$> (pairs.map (·.2)).mapM fun v => I.test f v stack
  fold_dict : ∀ pairs : Dict, I.combine .fold f (.dict pairs) stack =
    I.combine .fold f (.list (pairs.map (·.2))) stack
  dict_stops_iff : ∀ op (pairs : Dict) σ o, o.Stops → (I.combine op f (.dict pairs) stack σ = o ↔
    I.combine op f (.list (pairs.map (·.2))) stack σ = o)

end Interpreter

/-- **The laws of the combinators**, for every function that can be called. The interpreter that runs the function is
any one, so they hold in every configuration, with every fuel. -/
theorem combinators_lawful (I : Interpreter) (stack : CallStack) {f : Value} (hf : f.isCallable) :
    I.CombinatorLaws stack f where
  map_nil := by simp [I.combine_map_list hf]
  map_singleton v := by simp [I.combine_map_list hf]
  map_append := I.combine_map_append hf stack
  filter_nil := by simp [I.combine_filter_list hf, filterM_nil]
  filter_singleton v := by simp [I.combine_filter_list hf, filterM_cons, filterM_nil]
  filter_append := I.combine_filter_append hf stack
  fold_nil := I.combine_fold_nil hf stack
  fold_singleton v := by simp [I.combine_fold_cons hf]
  fold_pair u v := by simp [I.combine_fold_cons hf]
  fold_append _ bs has := I.combine_fold_append hf stack has bs
  stops_iff op vs σ _ ho := I.combine_stops_iff hf stack op vs σ ho
  map_dict := I.combine_map_dict hf stack
  map_length _ _ _ _ h := I.length_of_combine_map hf stack h
  filter_list := I.combine_filter_eq_select hf stack
  filter_dict := I.combine_filter_dict hf stack
  fold_dict := I.combine_fold_dict hf stack
  dict_stops_iff op pairs σ _ ho := I.combine_dict_stops_iff hf stack op pairs σ ho

/-- A function that divides fails at the second element, and the third is not visited. -/
theorem combinators_lawful_division :
    let f := Value.closure 0 none ["x"] (.binary (.operator .div) (.integer 10) (.symbol "x")) []
    let I := interpreter { strategy := .byNeed } 3
    f.isCallable = true ∧ I.CombinatorLaws .empty f ∧
      (∃ σ, I.combine .map f (.list [.int 5]) .empty {} = .done (.list [.int 2]) σ) ∧
      ∃ failure σ, I.combine .map f (.list [.int 5, .int 0, .int 1]) .empty {} = .failed failure σ ∧
        failure.cause = .divisionByZero :=
  ⟨rfl, combinators_lawful _ .empty rfl, ⟨_, rfl⟩, _, _, rfl, rfl⟩

end Treewalk
