import Treewalk.Proofs.IdentityTests
import Treewalk.Proofs.UniqueKeys

/-!
# Dictionaries are finite maps in order of insertion

The operations on dictionaries search for a key from the front and stop at the first one that is equal to it
(`Dict.split_of_contains`). So inserting replaces one pair in its place or appends one, and removing takes out one pair
or none.

* The laws of a finite map hold of looking up, inserting and removing: `Dict.get?_insert_self`,
  `Dict.get?_insert_of_ne`, `Dict.get?_erase_of_ne`. That a key is gone once it is removed needs keys that are unequal
  (`Dict.contains_erase_self`).
* A literal inserts its pairs one by one (`Dict.ofPairs`). It lists each key once, where it came first, with what it
  came with last (`Dict.lists_ofPairs`).

Together: **dictionaries are finite maps in order of insertion** (`dictionary_is_ordered_map`).
-/

namespace Treewalk

open Run Filter
open List (Forall₂)

/-! ## Looking up, inserting and removing -/

section Laws

namespace Dict

variable {key k v : Value} {dict before after : Dict}

theorem contains_cons (p : Value × Value) : contains key (p :: dict) = (p.1 == key || contains key dict) := rfl

theorem contains_append : contains key (before ++ after) = (contains key before || contains key after) :=
  List.any_append

/-- The search for a key stops at the first one that is equal to it. -/
theorem split_of_contains (h : contains key dict = true) : ∃ before k w after,
    dict = before ++ (k, w) :: after ∧ (k == key) = true ∧ contains key before = false := by
  induction dict with
  | nil => cases h
  | cons p dict ih =>
    obtain ⟨k, w⟩ := p
    cases hk : k == key with
    | true => exact ⟨[], k, w, dict, rfl, hk, rfl⟩
    | false =>
      rw [contains_cons, hk, Bool.false_or] at h
      obtain ⟨before, l, u, after, rfl, hl, hbefore⟩ := ih h
      refine ⟨(k, w) :: before, l, u, after, rfl, hl, ?_⟩
      rw [contains_cons, hk, hbefore, Bool.false_or]

theorem insert_append (h : contains key before = false) (v : Value) :
    (before ++ after).insert key v = before ++ after.insert key v := by
  induction before with
  | nil => rfl
  | cons p before ih =>
    rw [contains_cons, Bool.or_eq_false_iff] at h
    simp only [List.cons_append, insert, h.1, ih h.2, Bool.false_eq_true, if_false]

theorem erase_append (h : contains key before = false) :
    (before ++ after).erase key = before ++ after.erase key := by
  induction before with
  | nil => rfl
  | cons p before ih =>
    rw [contains_cons, Bool.or_eq_false_iff] at h
    simp only [List.cons_append, erase, h.1, ih h.2, Bool.false_eq_true, if_false]

/-- A key that is absent goes to the end. -/
theorem insert_of_not_contains (h : contains key dict = false) (v : Value) :
    dict.insert key v = dict ++ [(key, v)] := by
  have happend : (dict ++ []).insert key v = dict ++ [(key, v)] := insert_append h v
  rwa [List.append_nil] at happend

theorem erase_of_not_contains (h : contains key dict = false) : dict.erase key = dict := by
  have happend : (dict ++ []).erase key = dict ++ [] := erase_append h
  rwa [List.append_nil] at happend

theorem get?_insert_self (key v : Value) (dict : Dict) : (dict.insert key v).get? key = some v := by
  induction dict with
  | nil => simp only [insert, get?, BEq.rfl, if_true]
  | cons p dict ih =>
    obtain ⟨k, w⟩ := p
    by_cases hk : (k == key) = true
    · simp only [insert, get?, hk, BEq.rfl, if_true]
    · simp only [insert, get?, hk, Bool.false_eq_true, if_false, ih]

theorem get?_insert_of_ne (h : (key == k) = false) (v : Value) : (dict.insert key v).get? k = dict.get? k := by
  induction dict with
  | nil => simp only [insert, get?, h, Bool.false_eq_true, if_false]
  | cons p dict ih =>
    obtain ⟨l, w⟩ := p
    by_cases hl : (l == key) = true
    · have hlk : (l == k) = false := (BEq.congr_left hl).trans h
      simp only [insert, get?, hl, hlk, h, Bool.false_eq_true, if_false, if_true]
    · simp only [insert, get?, hl, Bool.false_eq_true, if_false, ih]

theorem get?_erase_of_ne (h : (key == k) = false) : (dict.erase key).get? k = dict.get? k := by
  induction dict with
  | nil => rfl
  | cons p dict ih =>
    obtain ⟨l, w⟩ := p
    by_cases hl : (l == key) = true
    · have hlk : (l == k) = false := (BEq.congr_left hl).trans h
      simp only [erase, get?, hl, hlk, Bool.false_eq_true, if_false, if_true]
    · simp only [erase, get?, hl, Bool.false_eq_true, if_false, ih]

/-- Only the first of the equal keys is removed, so the others have to be unequal to it. -/
theorem contains_erase_self (h : (dict.map (·.1)).Pairwise fun k l => (k == l) = false) :
    contains key (dict.erase key) = false := by
  cases hkey : contains key dict with
  | false => rw [erase_of_not_contains hkey, hkey]
  | true =>
    obtain ⟨before, k, w, after, rfl, hk, hbefore⟩ := split_of_contains hkey
    have herase : erase key ((k, w) :: after) = after := if_pos hk
    rw [erase_append hbefore, herase, contains_append, hbefore, Bool.false_or]
    rw [List.map_append, List.map_cons] at h
    obtain ⟨-, hpairwise, -⟩ := List.pairwise_append.1 h
    refine List.any_eq_false.2 fun p hp => Bool.eq_false_iff.1 ?_
    calc (p.1 == key) = (p.1 == k) := (BEq.congr_right hk).symm
      _ = (k == p.1) := BEq.comm
      _ = false := (List.pairwise_cons.1 hpairwise).1 p.1 (List.mem_map_of_mem hp)

end Dict

end Laws

/-! ## Literals -/

section Literals

/-- Of a list with one more item, the item is new unless one before it is equal to it. -/
theorem eraseDups_concat {α : Type} [BEq α] [EquivBEq α] (as : List α) (a : α) :
    (as ++ [a]).eraseDups = as.eraseDups ++ if as.any (· == a) then [] else [a] := by
  -- the items that are left of `as` without what is equal to its first are fewer
  induction hn : as.length using Nat.strong_induction_on generalizing as with
  | _ n ih =>
    cases as with
    | nil => rfl
    | cons b as =>
      have hfewer : (as.filter fun c => !c == b).length < n := by
        have := List.length_filter_le (fun c => !c == b) as
        simp only [List.length_cons] at hn
        omega
      have hrest := ih _ hfewer (as.filter fun c => !c == b) rfl
      rw [List.cons_append, List.eraseDups_cons, List.eraseDups_cons, List.filter_append, List.any_cons]
      cases hba : b == a with
      | true =>
        have hab : (a == b) = true := BEq.symm hba
        simp [hab]
      | false =>
        have hab : (a == b) = false := by rw [BEq.comm]; exact hba
        have hany : (as.filter fun c => !c == b).any (· == a) = as.any (· == a) := by
          rw [List.any_filter]
          congr 1
          funext c
          cases hca : c == a with
          | false => rw [Bool.and_false]
          | true =>
            have hcb : (c == b) = false := (BEq.congr_left hca).trans hab
            simp [hcb]
        rw [hany] at hrest
        simp [hab, hrest]

namespace Dict

variable {key v : Value} {dict pairs : Dict}

/-- The pairs, inserted one by one. -/
def ofPairs (pairs : Dict) : Dict :=
  pairs.foldl (fun dict p => dict.insert p.1 p.2) []

/-- A dictionary lists each of the keys once, where it comes first among the pairs, with the pair in which it comes
last. -/
def Lists (dict pairs : Dict) : Prop :=
  Forall₂ (fun p k => pairs.reverse.find? (·.1 == k) = some p) dict (pairs.map (·.1)).eraseDups

theorem ofPairs_concat (pairs : Dict) (p : Value × Value) :
    ofPairs (pairs ++ [p]) = (ofPairs pairs).insert p.1 p.2 := by
  simp only [ofPairs, List.foldl_append, List.foldl_cons, List.foldl_nil]

theorem pairwise_ofPairs (pairs : Dict) : ((ofPairs pairs).map (·.1)).Pairwise fun k l => (k == l) = false := by
  induction pairs using List.reverseRecOn with
  | nil => exact .nil
  | append_singleton pairs p ih =>
    rw [ofPairs_concat]
    exact pairwise_insert ih

theorem contains_insert (key v other : Value) (dict : Dict) :
    contains other (dict.insert key v) = (contains other dict || key == other) := by
  induction dict with
  | nil => exact Bool.or_comm _ _
  | cons p dict ih =>
    obtain ⟨k, w⟩ := p
    by_cases hk : (k == key) = true
    · simp only [insert, hk, if_true, contains_cons, BEq.congr_left hk]
      cases key == other <;> simp
    · simp only [insert, hk, Bool.false_eq_true, if_false, contains_cons, ih, Bool.or_assoc]

theorem contains_ofPairs (key : Value) (pairs : Dict) : contains key (ofPairs pairs) = contains key pairs := by
  induction pairs using List.reverseRecOn with
  | nil => rfl
  | append_singleton pairs p ih =>
    rw [ofPairs_concat, contains_insert, contains_append, ih, contains_cons]
    exact congrArg _ (Bool.or_false _).symm

/-- Inserting under a key that is present replaces the pair of that key, if keys are unequal. -/
theorem insert_eq_map (hpairwise : (dict.map (·.1)).Pairwise fun k l => (k == l) = false)
    (hkey : contains key dict = true) (v : Value) :
    dict.insert key v = dict.map fun p => if p.1 == key then (key, v) else p := by
  induction dict with
  | nil => cases hkey
  | cons p dict ih =>
    obtain ⟨hp, hdict⟩ := List.pairwise_cons.1 hpairwise
    obtain ⟨k, w⟩ := p
    by_cases hk : (k == key) = true
    · have hother : ∀ q ∈ dict, (if q.1 == key then (key, v) else q) = q := by
        intro q hq
        have hqkey : (q.1 == key) = false := by
          calc (q.1 == key) = (key == q.1) := BEq.comm
            _ = (k == q.1) := (BEq.congr_left hk).symm
            _ = false := hp q.1 (List.mem_map_of_mem hq)
        simp only [hqkey, Bool.false_eq_true, if_false]
      simp only [insert, List.map_cons, hk, if_true, List.map_congr_left hother, List.map_id']
    · have hdictkey : contains key dict = true := by
        rw [contains_cons] at hkey
        simpa only [hk, Bool.false_or] using hkey
      simp only [insert, List.map_cons, hk, Bool.false_eq_true, if_false, ih hdict hdictkey]

/-- The last pair of a key is the pair of an equal key that comes after all others, or else what it was before. -/
theorem find?_concat {q : Value × Value} {k : Value} (h : pairs.reverse.find? (·.1 == k) = some q) (key v : Value) :
    (pairs ++ [(key, v)]).reverse.find? (·.1 == k) = some (if q.1 == key then (key, v) else q) := by
  have hqk : (q.1 == k) = true := by simpa only using List.find?_some h
  have hkey : (key == k) = (q.1 == key) := by
    calc (key == k) = (k == key) := BEq.comm
      _ = (q.1 == key) := (BEq.congr_left hqk).symm
  rw [List.reverse_append, List.reverse_singleton, List.singleton_append, List.find?_cons, hkey]
  cases q.1 == key with
  | true => rfl
  | false => exact h

/-- What a literal lists after one more pair. -/
theorem lists_insert (h : (ofPairs pairs).Lists pairs) (key v : Value) :
    ((ofPairs pairs).insert key v).Lists (pairs ++ [(key, v)]) := by
  have hany : (pairs.map (·.1)).any (· == key) = contains key (ofPairs pairs) := by
    rw [List.any_map, contains_ofPairs]
    rfl
  unfold Lists at h ⊢
  rw [List.map_append, List.map_singleton, eraseDups_concat, hany]
  cases hkey : contains key (ofPairs pairs) with
  | true =>
    -- the pair of the key is replaced where it is
    rw [insert_eq_map (pairwise_ofPairs pairs) hkey, if_pos rfl, List.append_nil, List.forall₂_map_left_iff]
    exact h.imp fun q k hq => find?_concat hq key v
  | false =>
    -- the key is equal to none of those before it
    rw [insert_of_not_contains hkey, if_neg Bool.false_ne_true]
    rw [contains_ofPairs] at hkey
    refine List.rel_append (h.imp fun q k hq => ?_) (.cons ?_ .nil)
    · have hq' : ¬(q.1 == key) = true := List.any_eq_false.1 hkey q (List.mem_reverse.1 (List.mem_of_find?_eq_some hq))
      rw [find?_concat hq key v, if_neg hq']
    · rw [List.reverse_append, List.reverse_singleton, List.singleton_append, List.find?_cons, BEq.rfl]

/-- **A literal lists each key once**, where it came first, with what it came with last. -/
theorem lists_ofPairs (pairs : Dict) : (ofPairs pairs).Lists pairs := by
  induction pairs using List.reverseRecOn with
  | nil => exact .nil
  | append_singleton pairs p ih =>
    rw [ofPairs_concat]
    exact lists_insert ih p.1 p.2

end Dict

/-- Pairs of expressions are evaluated one after another, each key before its value, and all of them have values. -/
inductive EvaluatesPairs (config : Config) (env : Env) (stack : CallStack) :
    List (Expr × Expr) → Store → List (Value × Value) → Store → Prop
  | nil (σ : Store) : EvaluatesPairs config env stack [] σ [] σ
  | cons {k v : Expr} {key value : Value} {pairs : List (Expr × Expr)} {rest : List (Value × Value)}
      {σ σ₁ σ₂ σ₃ : Store} : Evaluates config k env stack σ (.done key σ₁) →
      Evaluates config v env stack σ₁ (.done value σ₂) → EvaluatesPairs config env stack pairs σ₂ rest σ₃ →
      EvaluatesPairs config env stack ((k, v) :: pairs) σ ((key, value) :: rest) σ₃

variable {config : Config} {env : Env} {stack inner : CallStack} {pairs : List (Expr × Expr)} {values : Dict}
  {σ τ : Store}

/-- What a literal does with the next pair. -/
def Interpreter.addNext (I : Interpreter) (env : Env) (stack : CallStack) (dict : Dict) (pair : Expr × Expr) :
    Run Dict := do
  let key ← I.eval pair.1 env stack
  let value ← I.eval pair.2 env stack
  addPair dict key value

/-- The pairs of a literal are inserted one by one. A search for a key may leave a note, which changes nothing. -/
theorem EvaluatesPairs.eventually (h : EvaluatesPairs config env stack pairs σ values τ) (dict : Dict) (tested : Bool) :
    ∃ tested', ∀ᶠ n in atTop, pairs.foldlM ((interpreter config n).addNext env stack) dict (σ.noted tested) =
      .done (values.foldl (fun dict p => dict.insert p.1 p.2) dict) (τ.noted tested') := by
  induction h generalizing dict tested with
  | nil σ => exact ⟨tested, Eventually.of_forall fun n => rfl⟩
  | @cons k v key value pairs rest σ σ₁ σ₂ σ₃ hk hv _ ih =>
    obtain ⟨tested', hrest⟩ := ih (dict.insert key value) (tested || dict.testsIdentity key)
    refine ⟨tested', ?_⟩
    filter_upwards [(hk.noted tested).eventually, (hv.noted tested).eventually, hrest] with n hkn hvn hrestn
    have hadd : (interpreter config n).addNext env stack dict (k, v) (σ.noted tested) =
        .done (dict.insert key value) (σ₂.noted (tested || dict.testsIdentity key)) := by
      simp only [Interpreter.addNext, interpreter, bind_apply, hkn, hvn]
      simp only [addPair, noteIdentityTest, Store.noted, bind_apply, pure_apply, Bool.or_assoc]
    rw [List.foldlM_cons, bind_apply, hadd]
    exact hrestn

/-- A literal whose parts have values is the dictionary of them. -/
theorem EvaluatesPairs.literal (hinner : stack.pushWithin config.maxDepth (.dict pairs) = .ok inner)
    (h : EvaluatesPairs config env inner pairs σ values τ) :
    ∃ after, Evaluates config (.dict pairs) env stack σ (.done (.dict (Dict.ofPairs values)) after) := by
  obtain ⟨tested, hpairs⟩ := h.eventually [] false
  have hσ : σ.noted false = σ := by simp only [Store.noted, Bool.or_false]
  rw [hσ] at hpairs
  refine ⟨τ.noted tested, .of_eventually (Outcome.done_ne_outOfFuel _ _) ?_⟩
  refine eventually_of_succ (hpairs.mono fun n hn => ?_)
  have hstep : (interpreter config n).evalStep config (.dict pairs) env inner σ =
      .done (.dict (Dict.ofPairs values)) (τ.noted tested) := by
    show (pairs.foldlM ((interpreter config n).addNext env inner) [] >>= fun dict => pure (Value.dict dict)) σ = _
    rw [bind_apply, hn]
    rfl
  simp only [eval_succ, inFrame, hinner, hstep]

end Literals

/-! ## Finite maps in order of insertion -/

section Main

/-- The laws of a finite map in order of insertion, at a key and for a value that is stored under it. -/
structure Dict.OrderedMapAt (dict : Dict) (k v : Value) : Prop where
  getKey_insert : (Value.insert k v (.dict dict) >>= k.getKey) = .ok v
  /-- Nothing changes under other keys. -/
  others : ∀ k' : Value, (k == k') = false →
    (Value.insert k v (.dict dict) >>= k'.getKey) = k'.getKey (.dict dict) ∧
    (Value.insert k v (.dict dict) >>= k'.hasKey) = k'.hasKey (.dict dict) ∧
    (k.delete (.dict dict) >>= k'.getKey) = k'.getKey (.dict dict) ∧
    (k.delete (.dict dict) >>= k'.hasKey) = k'.hasKey (.dict dict)
  /-- A key is said to be present iff something is found under it. -/
  hasKey_iff : ∃ present, k.hasKey (.dict dict) = .ok (.bool present) ∧
    (present = true ↔ ∃ w, k.getKey (.dict dict) = .ok w)
  getKey_error : ∀ cause, k.getKey (.dict dict) = .error cause → cause = .keyNotFound k.display
  hasKey_delete : (k.delete (.dict dict) >>= k.hasKey) = .ok (.bool false)
  /-- A key that is present has one place: inserting replaces what is there, and removing takes it out. -/
  present : k.hasKey (.dict dict) = .ok (.bool true) → ∃ before key old after,
    dict = before ++ (key, old) :: after ∧ (key == k) = true ∧
      Value.insert k v (.dict dict) = .ok (.dict (before ++ (k, v) :: after)) ∧
      k.delete (.dict dict) = .ok (.dict (before ++ after))
  /-- A key that is absent goes to the end. -/
  absent : k.hasKey (.dict dict) = .ok (.bool false) →
    Value.insert k v (.dict dict) = .ok (.dict (dict ++ [(k, v)])) ∧ k.delete (.dict dict) = .ok (.dict dict)

variable {dict other : Dict} {k v : Value}

theorem hasKey_dict (k : Value) (dict : Dict) : k.hasKey (.dict dict) = .ok (.bool (dict.contains k)) := rfl

theorem getKey_dict (k : Value) (dict : Dict) :
    k.getKey (.dict dict) = match dict.get? k with
      | some v => .ok v
      | none => .error (.keyNotFound k.display) := rfl

/-- Looking up tells two dictionaries apart only by what is stored under the key. -/
theorem getKey_congr (h : other.get? k = dict.get? k) :
    k.getKey (.dict other) = k.getKey (.dict dict) ∧ k.hasKey (.dict other) = k.hasKey (.dict dict) := by
  rw [getKey_dict, getKey_dict, hasKey_dict, hasKey_dict, ← Dict.isSome_get?, ← Dict.isSome_get?, h]
  exact ⟨rfl, rfl⟩

theorem contains_of_hasKey {present : Bool} (h : k.hasKey (.dict dict) = .ok (.bool present)) :
    dict.contains k = present :=
  Value.bool.inj (Except.ok.inj h)

theorem orderedMapAt (hkeys : (dict.map (·.1)).Pairwise fun k l => (k == l) = false) (k v : Value) :
    dict.OrderedMapAt k v where
  getKey_insert := by
    show k.getKey (.dict (dict.insert k v)) = .ok v
    rw [getKey_dict, Dict.get?_insert_self]
  others k' hk' := by
    have hinsert : (dict.insert k v).get? k' = dict.get? k' := Dict.get?_insert_of_ne hk' v
    have herase : (dict.erase k).get? k' = dict.get? k' := Dict.get?_erase_of_ne hk'
    obtain ⟨hget, hhas⟩ := getKey_congr hinsert
    obtain ⟨hget', hhas'⟩ := getKey_congr herase
    exact ⟨hget, hhas, hget', hhas'⟩
  hasKey_iff := by
    refine ⟨dict.contains k, rfl, ?_⟩
    rw [← Dict.isSome_get?, getKey_dict]
    cases dict.get? k with
    | none => exact ⟨nofun, nofun⟩
    | some w => exact ⟨fun _ => ⟨w, rfl⟩, fun _ => rfl⟩
  getKey_error cause h := by
    rw [getKey_dict] at h
    cases hget : dict.get? k with
    | none =>
      rw [hget] at h
      exact (Except.error.inj h).symm
    | some w =>
      rw [hget] at h
      cases h
  hasKey_delete := by
    show k.hasKey (.dict (dict.erase k)) = .ok (.bool false)
    rw [hasKey_dict, Dict.contains_erase_self hkeys]
  present h := by
    obtain ⟨before, key, old, after, rfl, hkey, hbefore⟩ := Dict.split_of_contains (contains_of_hasKey h)
    refine ⟨before, key, old, after, rfl, hkey, ?_, ?_⟩
    · show Except.ok (Value.dict ((before ++ (key, old) :: after).insert k v)) = _
      rw [Dict.insert_append hbefore, Dict.insert, if_pos hkey]
    · show Except.ok (Value.dict (Dict.erase k (before ++ (key, old) :: after))) = _
      rw [Dict.erase_append hbefore, Dict.erase, if_pos hkey]
  absent h := by
    have hcontains := contains_of_hasKey h
    refine ⟨?_, ?_⟩
    · show Except.ok (Value.dict (dict.insert k v)) = _
      rw [Dict.insert_of_not_contains hcontains]
    · show Except.ok (Value.dict (Dict.erase k dict)) = _
      rw [Dict.erase_of_not_contains hcontains]

/-- **Dictionaries are finite maps in order of insertion.** In that of a literal, each key stands where it came first
with what it came with last. -/
theorem dictionary_is_ordered_map :
    (∀ dict : Dict, (dict.map (·.1)).Pairwise (fun k l => (k == l) = false) → ∀ k v : Value, dict.OrderedMapAt k v) ∧
      ∀ (config : Config) (pairs : List (Expr × Expr)) (env : Env) (stack inner : CallStack) (σ τ : Store)
        (values : List (Value × Value)), stack.pushWithin config.maxDepth (.dict pairs) = .ok inner →
        EvaluatesPairs config env inner pairs σ values τ →
        ∃ (dict : Dict) (after : Store), Evaluates config (.dict pairs) env stack σ (.done (.dict dict) after) ∧
          (dict.map (·.1)).Pairwise (fun k l => (k == l) = false) ∧ dict.Lists values := by
  refine ⟨fun dict hkeys k v => orderedMapAt hkeys k v, ?_⟩
  intro config pairs env stack inner σ τ values hinner hvalues
  obtain ⟨after, hliteral⟩ := hvalues.literal hinner
  exact ⟨Dict.ofPairs values, after, hliteral, Dict.pairwise_ofPairs values, Dict.lists_ofPairs values⟩

/-- A literal that gives a key twice, and what is stored in it afterwards under the same key. -/
theorem dictionary_is_ordered_map_repeated :
    let pairs : List (Expr × Expr) := [(.integer 1, .string "a"), (.integer 2, .string "b"), (.integer 1, .string "c")]
    let values : Dict := [(.int 1, .str "a"), (.int 2, .str "b"), (.int 1, .str "c")]
    (∃ (dict : Dict) (after : Store),
      Evaluates ⟨some 2, .byNeed⟩ (.dict pairs) [] CallStack.empty {} (.done (.dict dict) after) ∧
      (dict.map (·.1)).Pairwise (fun k l => (k == l) = false) ∧ dict.Lists values) ∧
    Dict.OrderedMapAt [(.int 1, .str "c"), (.int 2, .str "b")] (.int 1) (.str "d") := by
  intro pairs values
  obtain ⟨hlaws, hliteral⟩ := dictionary_is_ordered_map
  refine ⟨hliteral ⟨some 2, .byNeed⟩ pairs [] CallStack.empty (CallStack.empty.push (.dict pairs)) {} {} values rfl ?_,
    ?_⟩
  · have hint : ∀ n : Int64, Evaluates ⟨some 2, .byNeed⟩ (.integer n) [] (CallStack.empty.push (.dict pairs)) {}
        (.done (.int n) {}) := fun n => ⟨nofun, 1, rfl⟩
    have hstr : ∀ s : String, Evaluates ⟨some 2, .byNeed⟩ (.string s) [] (CallStack.empty.push (.dict pairs)) {}
        (.done (.str s) {}) := fun s => ⟨nofun, 1, rfl⟩
    exact .cons (hint 1) (hstr "a") (.cons (hint 2) (hstr "b") (.cons (hint 1) (hstr "c") (.nil {})))
  · exact hlaws _ (by decide) _ _

end Main

end Treewalk
