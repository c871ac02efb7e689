import Treewalk.Proofs.Dictionaries
import Treewalk.Proofs.Resemblance

/-!
# Literals of values

Every value without functions has a literal, `Value.literal`: an expression without names that says what the value is
made of.

* A literal is written like its value (`Value.display_literal`).
* The parts of a literal evaluate to the parts of the value, one by one (`Value.literalAll_evaluates`,
  `Value.literalPairs_evaluates`). A dictionary is built by storing its pairs in turn: keys that differ from all before
  them go to the end, and a search among data never has to tell functions apart (`Value.testsIdentity_eq_false`).

Hence **literals evaluate to themselves** (`literal_evaluates_to_itself`), and leave the store as it was.
-/

namespace Treewalk

open Filter Run

/-! ## Literals -/

section Literals

/-- A list expression of the given items, put together from the last to the first. -/
def Expr.ofItems (items : List Expr) : Expr :=
  .list (items.reverse.foldl (fun rest e => e :: rest) [])

theorem Expr.ofItems_eq (items : List Expr) : Expr.ofItems items = .list items := by
  rw [Expr.ofItems, List.foldl_reverse, List.foldr_cons_nil]

mutual

/-- The literal of a value. A function has none, and `()` stands in its place. -/
def Value.literal : Value → Expr
  | .unit => .unit
  | .int n => .integer n
  | .bool b => .boolean b
  | .str s => .string s
  | .list vs => .ofItems (literalAll vs)
  | .dict ps => .dict (literalPairs ps)
  | .closure _ _ _ _ _ | .primitive _ _ => .unit

/-- The literals of several values. -/
def Value.literalAll : List Value → List Expr
  | [] => []
  | v :: vs => literal v :: literalAll vs

/-- The literals of several pairs of values. -/
def Value.literalPairs : List (Value × Value) → List (Expr × Expr)
  | [] => []
  | (k, v) :: ps => (literal k, literal v) :: literalPairs ps

end

mutual

/-- Whether each dictionary inside a value has unequal keys. -/
def Value.hasUniqueKeys : Value → Bool
  | .list vs => hasUniqueKeysAll vs
  | .dict ps => decide ((ps.map (·.1)).Pairwise fun k l => (k == l) = false) && hasUniqueKeysPairs ps
  | _ => true

def Value.hasUniqueKeysAll : List Value → Bool
  | [] => true
  | v :: vs => v.hasUniqueKeys && hasUniqueKeysAll vs

def Value.hasUniqueKeysPairs : List (Value × Value) → Bool
  | [] => true
  | (k, v) :: ps => k.hasUniqueKeys && v.hasUniqueKeys && hasUniqueKeysPairs ps

end

end Literals

namespace Value

/-! ## The text of a literal -/

section Display

mutual

/-- A literal is written like its value. -/
theorem display_literal : ∀ {v : Value}, v.isData = true → v.literal.display = v.display
  | .unit, _ | .int _, _ | .bool _, _ | .str _, _ => rfl
  | .list [], _ => rfl
  | .list (v :: vs), hdata => by
    obtain ⟨hv, hvs⟩ := Bool.and_eq_true_iff.1 hdata
    rw [literal, Expr.ofItems_eq, literalAll, Expr.display, display_literal hv, displayItems_literalAll hvs, display]
  | .dict [], _ => rfl
  | .dict ((k, v) :: ps), hdata => by
    obtain ⟨hp, hps⟩ := Bool.and_eq_true_iff.1 hdata
    obtain ⟨hk, hv⟩ := Bool.and_eq_true_iff.1 hp
    rw [literal, literalPairs, Expr.display, display_literal hk, display_literal hv, displayPairs_literalPairs hps,
      display]
  | .closure _ _ _ _ _, hdata => by cases hdata
  | .primitive _ _, hdata => by cases hdata

theorem displayItems_literalAll : ∀ {vs : List Value} {text : String}, isDataAll vs = true →
    Expr.displayItems (literalAll vs) text = displayItems vs text
  | [], _, _ => rfl
  | v :: vs, _, hdata => by
    obtain ⟨hv, hvs⟩ := Bool.and_eq_true_iff.1 hdata
    rw [literalAll, Expr.displayItems, display_literal hv, displayItems_literalAll hvs, displayItems]

theorem displayPairs_literalPairs : ∀ {ps : List (Value × Value)} {text : String}, isDataPairs ps = true →
    Expr.displayPairs (literalPairs ps) text = displayPairs ps text
  | [], _, _ => rfl
  | (k, v) :: ps, _, hdata => by
    obtain ⟨hp, hps⟩ := Bool.and_eq_true_iff.1 hdata
    obtain ⟨hk, hv⟩ := Bool.and_eq_true_iff.1 hp
    rw [literalPairs, Expr.displayPairs, display_literal hk, display_literal hv, displayPairs_literalPairs hps,
      displayPairs]

end

end Display

/-! ## Comparisons among data -/

section Comparisons

mutual

/-- Data is compared without looking at functions. -/
theorem byIdentity_course : ∀ {a : Value} (b : Value), a.isData = true → (course a b).byIdentity = false
  | .unit, b, _ | .int _, b, _ | .bool _, b, _ | .str _, b, _ => by cases b <;> rfl
  | .list as, b, hdata => by
    cases b with
    | list bs =>
      rw [course]
      split
      · exact byIdentity_courseAll bs hdata
      · rfl
    | _ => rfl
  | .dict ps, b, hdata => by
    cases b with
    | dict qs =>
      rw [course]
      split
      · exact byIdentity_coursePairs qs hdata
      · rfl
    | _ => rfl
  | .closure _ _ _ _ _, _, hdata => by cases hdata
  | .primitive _ _, _, hdata => by cases hdata

theorem byIdentity_courseAll : ∀ {as : List Value} (bs : List Value), isDataAll as = true →
    (courseAll as bs false).byIdentity = false
  | [], bs, _ => by cases bs <;> rfl
  | _ :: _, [], _ => rfl
  | a :: as, b :: bs, hdata => by
    obtain ⟨ha, has⟩ := Bool.and_eq_true_iff.1 hdata
    simp only [courseAll, byIdentity_course b ha, Bool.or_false]
    split
    · exact byIdentity_courseAll bs has
    · exact byIdentity_course b ha

theorem byIdentity_coursePairs : ∀ {ps : List (Value × Value)} (qs : List (Value × Value)), isDataPairs ps = true →
    (coursePairs ps qs false).byIdentity = false
  | [], qs, _ => by cases qs <;> rfl
  | _ :: _, [], _ => rfl
  | (k, v) :: ps, (l, w) :: qs, hdata => by
    obtain ⟨hp, hps⟩ := Bool.and_eq_true_iff.1 hdata
    obtain ⟨hk, hv⟩ := Bool.and_eq_true_iff.1 hp
    simp only [coursePairs, byIdentity_course l hk, byIdentity_course w hv, Bool.or_false]
    split
    · split
      · exact byIdentity_coursePairs qs hps
      · exact byIdentity_course w hv
    · exact byIdentity_course l hk

end

/-- A search among data never has to tell functions apart. -/
theorem testsIdentity_eq_false (key : Value) : ∀ {ps : Dict}, isDataPairs ps = true → ps.testsIdentity key = false
  | [], _ => rfl
  | (_, _) :: _, hdata => by
    obtain ⟨hp, hps⟩ := Bool.and_eq_true_iff.1 hdata
    rw [Dict.testsIdentity, testsIdentity, byIdentity_course key (Bool.and_eq_true_iff.1 hp).1,
      testsIdentity_eq_false key hps, Bool.and_false, Bool.or_false]

theorem isDataPairs_append : ∀ {ps qs : List (Value × Value)}, isDataPairs ps = true → isDataPairs qs = true →
    isDataPairs (ps ++ qs) = true
  | [], _, _, hqs => hqs
  | (_, _) :: _, _, hdata, hqs => by
    obtain ⟨hp, hps⟩ := Bool.and_eq_true_iff.1 hdata
    exact Bool.and_eq_true_iff.2 ⟨hp, isDataPairs_append hps hqs⟩

end Comparisons

/-! ## The value of a literal -/

section Evaluation

variable {strategy : Strategy} {env : Env} {store : Store}

/-- A pair with a new key goes to the end. -/
theorem addPair_of_unequal {dict : Dict} {k : Value} (v : Value) (hdata : isDataPairs dict = true)
    (hkeys : ∀ l ∈ dict.map (·.1), (l == k) = false) (store : Store) :
    addPair dict k v store = .done (dict ++ [(k, v)]) store := by
  have hnew : Dict.contains k dict = false := by
    refine List.any_eq_false.2 fun p hp => ?_
    rw [hkeys p.1 (List.mem_map_of_mem hp)]
    exact Bool.false_ne_true
  rw [addPair, testsIdentity_eq_false k hdata, Dict.insert_of_not_contains hnew]
  simp only [bind_apply, noteIdentityTest, Bool.or_false, pure_apply]

mutual

/-- A literal evaluates to its value. -/
theorem literal_evaluates : ∀ {v : Value}, v.isData = true → v.hasUniqueKeys = true → ∀ stack : CallStack,
    ∀ᶠ n in atTop, eval ⟨none, strategy⟩ n v.literal env stack store = .done v store
  | .unit, _, _, _ | .int _, _, _, _ | .bool _, _, _, _ | .str _, _, _, _ =>
    eventually_of_succ (.of_forall fun _ => rfl)
  | .list vs, hdata, hkeys, stack => by
    rw [literal, Expr.ofItems_eq]
    refine eventually_of_succ ((literalAll_evaluates hdata hkeys (stack.push (.list (literalAll vs)))).mono ?_)
    intro n hn
    rw [eval_succ, inFrame, CallStack.pushWithin_none]
    simp only [Interpreter.evalStep, interpreter, bind_apply, hn, pure_apply]
  | .dict ps, hdata, hkeys, stack => by
    obtain ⟨hunique, hkeys⟩ := Bool.and_eq_true_iff.1 hkeys
    refine eventually_of_succ ((literalPairs_evaluates [] hdata hkeys rfl (of_decide_eq_true hunique)
      (stack.push (.dict (literalPairs ps)))).mono ?_)
    intro n hn
    have hstep : (interpreter ⟨none, strategy⟩ n).evalStep ⟨none, strategy⟩ (.dict (literalPairs ps)) env
        (stack.push (.dict (literalPairs ps))) store = .done (.dict ps) store := by
      show ((literalPairs ps).foldlM ((interpreter ⟨none, strategy⟩ n).addNext env _) [] >>=
        fun dict => pure (Value.dict dict)) store = _
      rw [bind_apply, hn]
      rfl
    rw [literal, eval_succ, inFrame, CallStack.pushWithin_none]
    simp only [hstep]
  | .closure _ _ _ _ _, hdata, _, _ => by cases hdata
  | .primitive _ _, hdata, _, _ => by cases hdata

theorem literalAll_evaluates : ∀ {vs : List Value}, isDataAll vs = true → hasUniqueKeysAll vs = true →
    ∀ stack : CallStack, ∀ᶠ n in atTop,
      (literalAll vs).mapM (fun e => eval ⟨none, strategy⟩ n e env stack) store = .done vs store
  | [], _, _, _ => .of_forall fun _ => rfl
  | v :: vs, hdata, hkeys, stack => by
    obtain ⟨hv, hvs⟩ := Bool.and_eq_true_iff.1 hdata
    obtain ⟨hkv, hkvs⟩ := Bool.and_eq_true_iff.1 hkeys
    filter_upwards [literal_evaluates hv hkv stack, literalAll_evaluates hvs hkvs stack] with n hvn hvsn
    simp only [literalAll, List.mapM_cons, bind_apply, hvn, hvsn, pure_apply]

/-- The pairs of a literal go one by one to the end of those before them. -/
theorem literalPairs_evaluates : ∀ {ps : Dict} (done : Dict), isDataPairs ps = true → hasUniqueKeysPairs ps = true →
    isDataPairs done = true → ((done ++ ps).map (·.1)).Pairwise (fun k l => (k == l) = false) →
    ∀ stack : CallStack, ∀ᶠ n in atTop,
      (literalPairs ps).foldlM ((interpreter ⟨none, strategy⟩ n).addNext env stack) done store =
        .done (done ++ ps) store
  | [], _, _, _, _, _, _ => .of_forall fun _ => by rw [List.append_nil]; rfl
  | (k, v) :: ps, done, hdata, hkeys, hdone, hunique, stack => by
    obtain ⟨hp, hps⟩ := Bool.and_eq_true_iff.1 hdata
    obtain ⟨hk, hv⟩ := Bool.and_eq_true_iff.1 hp
    obtain ⟨hkp, hkps⟩ := Bool.and_eq_true_iff.1 hkeys
    obtain ⟨hkk, hkv⟩ := Bool.and_eq_true_iff.1 hkp
    have hnew : ∀ l ∈ done.map (·.1), (l == k) = false := by
      rw [List.map_append, List.pairwise_append] at hunique
      exact fun l hl => hunique.2.2 l hl k List.mem_cons_self
    have hlonger : isDataPairs (done ++ [(k, v)]) = true :=
      isDataPairs_append hdone (Bool.and_eq_true_iff.2 ⟨hp, rfl⟩)
    rw [List.append_cons] at hunique
    filter_upwards [literal_evaluates hk hkk stack, literal_evaluates hv hkv stack,
      literalPairs_evaluates _ hps hkps hlonger hunique stack] with n hkn hvn hpsn
    have hadd : (interpreter ⟨none, strategy⟩ n).addNext env stack done (k.literal, v.literal) store =
        .done (done ++ [(k, v)]) store := by
      simp only [Interpreter.addNext, interpreter, bind_apply, hkn, hvn]
      exact addPair_of_unequal v hdone hnew store
    rw [List.append_cons done (k, v) ps, literalPairs, List.foldlM_cons, bind_apply, hadd]
    exact hpsn

end

end Evaluation

end Value

/-! ## Data and its literals -/

section Main

/-- **Literals evaluate to themselves**, in every environment and on every stack, without any change to the store, and
are written like their values. -/
theorem literal_evaluates_to_itself {v : Value} (hdata : v.isData = true) (hkeys : v.hasUniqueKeys = true)
    (strategy : Strategy) (env : Env) (stack : CallStack) (store : Store) :
    Evaluates ⟨none, strategy⟩ v.literal env stack store (.done v store) ∧ v.literal.display = v.display :=
  ⟨.of_eventually nofun (Value.literal_evaluates hdata hkeys stack), Value.display_literal hdata⟩

/-- A dictionary with a list and a dictionary in it, one of them under a key that is a list. -/
theorem literal_evaluates_to_itself_nested :
    let v : Value := .dict [(.str "a", .list [.int (-1), .unit]), (.list [.bool true], .dict [(.unit, .str "b")])]
    (v.isData = true ∧ v.hasUniqueKeys = true) ∧
      Evaluates ⟨none, .byNeed⟩ v.literal [] CallStack.empty {} (.done v {}) ∧ v.literal.display = v.display := by
  intro v
  have hdata : v.isData = true := rfl
  have hkeys : v.hasUniqueKeys = true := by decide
  exact ⟨⟨hdata, hkeys⟩, literal_evaluates_to_itself hdata hkeys .byNeed [] CallStack.empty {}⟩

end Main

end Treewalk
