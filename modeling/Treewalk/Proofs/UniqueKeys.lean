import Treewalk.Proofs.Invariants

/-!
# Dictionary keys stay unique

No type says that the keys of a dictionary differ from each other, so every operation that makes one has to see to it.
Storing under a key that is present puts the new key in the place of the old one, which is right because equality of
values is an equivalence (`Dict.pairwise_insert`). Removing and filtering leave keys out, and mapping leaves them alone.

Hence **all dictionaries in an evaluation have unequal keys** (`keys_stay_unique`), wherever they stand: in the values
that are returned, in what names are bound to, in captured environments and in memo cells. An evaluator that watches
itself for equal keys (`watched`) raises no alarm, also where it goes on forever.
-/

namespace Treewalk

/-! ## Storing under a key -/

section Insert

variable {key v : Value} {dict : Dict}

theorem Dict.mem_keys_insert {k : Value} (h : k ∈ (dict.insert key v).map (·.1)) : k = key ∨ k ∈ dict.map (·.1) := by
  induction dict with
  | nil => exact Or.inl (List.mem_singleton.1 h)
  | cons p dict ih =>
    obtain ⟨l, w⟩ := p
    rw [Dict.insert] at h
    split at h
    · rcases List.mem_cons.1 h with h | h
      · exact Or.inl h
      · exact Or.inr (List.mem_cons_of_mem _ h)
    · rcases List.mem_cons.1 h with h | h
      · exact Or.inr (h ▸ List.mem_cons_self)
      · rcases ih h with h | h
        · exact Or.inl h
        · exact Or.inr (List.mem_cons_of_mem _ h)

/-- Storing under a key keeps keys unequal. -/
theorem Dict.pairwise_insert (h : (dict.map (·.1)).Pairwise fun k l => (k == l) = false) :
    ((dict.insert key v).map (·.1)).Pairwise fun k l => (k == l) = false := by
  induction dict with
  | nil => exact List.pairwise_singleton _ _
  | cons p dict ih =>
    obtain ⟨k, w⟩ := p
    obtain ⟨hk, hdict⟩ := List.pairwise_cons.1 h
    rw [Dict.insert]
    split
    · next heq =>
      -- the new key stands where the old one did, and is unequal to the keys that the old one was unequal to
      refine List.pairwise_cons.2 ⟨fun l hl => ?_, hdict⟩
      calc (key == l) = (k == l) := (BEq.congr_left heq).symm
        _ = false := hk l hl
    · next hne =>
      refine List.pairwise_cons.2 ⟨fun l hl => ?_, ih hdict⟩
      rcases Dict.mem_keys_insert hl with rfl | hl
      · exact Bool.eq_false_iff.2 hne
      · exact hk l hl

end Insert

/-! ## The discipline -/

section Main

/-- Any two keys have to be unequal. -/
def KeyRule.unequal : KeyRule where
  holds := List.Pairwise fun k l => (k == l) = false
  nil := .nil
  insert _ _ := Dict.pairwise_insert
  sublist := List.Pairwise.sublist

/-- The keys of a dictionary have to be unequal, and nothing else is asked. -/
def uniqueKeys : Discipline where
  lexical := False
  keys := .unequal
  awaits _ _ := True
  awaits_of_lt _ := trivial

/-- Every dictionary inside the value has unequal keys: in lists, in dictionaries, among the arguments of builtins, in
captured environments and in memo cells. -/
abbrev Value.UniqueKeysIn (store : Store) (v : Value) : Prop :=
  v.ObeysIn uniqueKeys store

/-- Every dictionary inside the bindings of the environment has unequal keys. -/
abbrev Env.UniqueKeysIn (store : Store) (r : Env) : Prop :=
  Env.ObeysIn uniqueKeys store r

/-- A builtin without arguments holds no dictionary. -/
theorem uniqueKeysIn_withBuiltins (store : Store) : Env.withBuiltins.UniqueKeysIn store :=
  Env.obeysIn_withBuiltins uniqueKeys store

/-- **Dictionary keys stay unique**: in no value that an evaluation handles, also where it goes on forever, does a
dictionary have two equal keys. -/
theorem keys_stay_unique (config : Config) (e : Expr) {env : Env} (stack : CallStack) {store : Store}
    (henv : env = Env.withBuiltins ∨ Env.UniqueKeysIn store env) :
    (∀ v after, Evaluates config e env stack store (.done v after) → v.UniqueKeysIn after) ∧
      (∀ outcome after, Evaluates config e env stack store outcome → outcome.store? = some after →
        ∀ cell v, store.memo? cell = none → after.memo? cell = some v → v.UniqueKeysIn after) ∧
      ∀ alarm n, (watched uniqueKeys alarm config n).eval e env stack store = eval config n e env stack store := by
  have hunique : Env.UniqueKeysIn store env := by
    rcases henv with rfl | henv
    · exact uniqueKeysIn_withBuiltins store
    · exact henv
  obtain ⟨hwatched, _, hvalue, hcells⟩ := uniqueKeys.kept config stack hunique fun hlexical => hlexical.elim
  exact ⟨hvalue, hcells, hwatched⟩

/-- A literal that gives a key twice, stored into by a builtin under the same key. -/
theorem keys_stay_unique_insert :
    let e : Expr := .apply (.symbol "insert")
      [.integer 1, .string "c", .dict [(.integer 1, .string "a"), (.integer 1, .string "b")]]
    ∃ v after, Evaluates ⟨none, .byNeed⟩ e Env.withBuiltins CallStack.empty {} (.done v after) ∧
      v.UniqueKeysIn after := by
  intro e
  have h : Evaluates ⟨none, .byNeed⟩ e Env.withBuiltins CallStack.empty {} (.done (.dict [(.int 1, .str "c")]) {}) :=
    ⟨nofun, 3, rfl⟩
  exact ⟨_, _, h, (keys_stay_unique _ _ _ (Or.inl rfl)).1 _ _ h⟩

end Main

end Treewalk
