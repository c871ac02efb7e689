import Treewalk.Expr.Basic

/-!
# Free variables

The names that an expression takes from its environment (`Expr.free`), by the scopes of the language:

* a lambda binds its parameters in its body, and a binding form its names in its body;
* the names of one group do not see each other, and a recursive name is seen by its own function;
* a declaration is seen by the later items of its sequence, and by nothing else;
* the empty name cannot be bound.

They are collected in a list, in the order of their occurrences; only membership matters.
-/

namespace Treewalk

/-! ## Binding names -/

/-- The names that stay free where the names `bound` are bound. The empty name is never bound. -/
def stillFree (bound names : List String) : List String :=
  names.filter fun name => name = "" ∨ name ∉ bound

section StillFree

variable {bound names : List String} {name : String}

@[simp] theorem mem_stillFree : name ∈ stillFree bound names ↔ name ∈ names ∧ (name = "" ∨ name ∉ bound) := by
  simp [stillFree]

/-- A name is free unless it is the one that is bound. -/
theorem mem_stillFree_of_not {other : String} (hother : other ∈ names) (h : ¬(other = name ∧ other ≠ "")) :
    other ∈ stillFree [name] names := by
  refine mem_stillFree.2 ⟨hother, ?_⟩
  by_cases hempty : other = ""
  · exact Or.inl hempty
  · exact Or.inr fun hmem => h ⟨List.mem_singleton.1 hmem, hempty⟩

@[simp] theorem stillFree_nil (names : List String) : stillFree [] names = names := by
  simp [stillFree]

/-- The inner names are bound first. -/
theorem stillFree_append (outer inner names : List String) :
    stillFree (outer ++ inner) names = stillFree outer (stillFree inner names) := by
  unfold stillFree
  rw [List.filter_filter]
  refine List.filter_congr fun name _ => ?_
  rw [← Bool.decide_and, decide_eq_decide, List.mem_append, not_or, or_and_left]

theorem stillFree_cons (name : String) (inner names : List String) :
    stillFree (name :: inner) names = stillFree [name] (stillFree inner names) :=
  stillFree_append [name] inner names

/-- Where a name is bound, it is free only if it is empty. -/
theorem stillFree_self (h : name ≠ "") : stillFree [name] [name] = [] := by
  simp [stillFree, h]

end StillFree

/-! ## Expressions -/

/-- The names that a declaration binds. -/
def Decl.names : Decl → List String
  | .eager bindings | .lazy bindings => bindings.map (·.1)
  | .recursive name _ | .lazyRecursive name _ => [name]

/-- The names that an item of a sequence binds for the later items. -/
def Expr.declared : Expr → List String
  | .declare decl => decl.names
  | _ => []

mutual

/-- The free variables of an expression. -/
def Expr.free : Expr → List String
  | .unit | .integer _ | .boolean _ | .string _ => []
  | .list items => Expr.freeAll items
  | .dict pairs => Expr.freePairs pairs
  | .symbol name => [name]
  | .unary _ e => e.free
  | .binary _ l r => l.free ++ r.free
  | .insert k v d => k.free ++ (v.free ++ d.free)
  | .combine _ c f => c.free ++ f.free
  | .branch c y n => c.free ++ (y.free ++ n.free)
  | .letIn decl body => decl.free ++ stillFree decl.names body.free
  | .declare decl => decl.free
  | .lambda params body => stillFree params body.free
  | .apply f args => f.free ++ Expr.freeAll args
  | .sequence items => Expr.freeItems items
  | .pipe f e => f.free ++ e.free

def Expr.freeAll : List Expr → List String
  | [] => []
  | e :: es => e.free ++ Expr.freeAll es

def Expr.freePairs : List (Expr × Expr) → List String
  | [] => []
  | (k, v) :: ps => (k.free ++ v.free) ++ Expr.freePairs ps

/-- The free variables of the items of a sequence, each of which sees the declarations before it. -/
def Expr.freeItems : List Expr → List String
  | [] => []
  | e :: es => e.free ++ stillFree e.declared (Expr.freeItems es)

/-- The free variables of the right-hand sides of a declaration. -/
def Decl.free : Decl → List String
  | .eager bindings | .lazy bindings => Decl.freeBindings bindings
  | .recursive name value | .lazyRecursive name value => stillFree [name] value.free

def Decl.freeBindings : List (String × Expr) → List String
  | [] => []
  | (_, e) :: bindings => e.free ++ Decl.freeBindings bindings

end

-- the second item sees the declaration of `y`, the declaration does not see itself
example : (Expr.sequence [.declare (.eager [("y", .symbol "y")]),
    .lambda ["x"] (.pipe (.symbol "y") (.symbol "z"))]).free = ["y", "z"] := by decide

/-- The free variables of a function: its own name and its parameters are bound in its body. -/
def Expr.freeUnder (self : Option String) (params : List String) (body : Expr) : List String :=
  stillFree (self.toList ++ params) body.free

/-- What a thunk that is bound to a name has to find bound. A recursive function that is built lazily under the empty
name makes a thunk that looks for the empty name, but nothing looks for the thunk. -/
def Expr.freeAs (name : String) (e : Expr) : List String :=
  match e with
  | .letIn (.recursive self value) (.symbol other) =>
    if name = "" ∧ self = "" ∧ other = "" then stillFree [""] value.free else e.free
  | e => e.free

section FreeAs

variable {name x : String} {e : Expr}

theorem Expr.freeAs_of_ne (h : name ≠ "") (e : Expr) : e.freeAs name = e.free := by
  unfold Expr.freeAs
  split
  · exact if_neg fun hempty => h hempty.1
  · rfl

theorem Expr.freeAs_subset (name : String) (e : Expr) : e.freeAs name ⊆ e.free := by
  unfold Expr.freeAs
  split
  · split
    · next h =>
      obtain ⟨-, rfl, -⟩ := h
      exact List.subset_append_left _ _
    · exact List.Subset.refl _
  · exact List.Subset.refl _

/-- Only the empty name may be missing. -/
theorem Expr.mem_freeAs (hx : x ∈ e.free) (hempty : x ≠ "") : x ∈ e.freeAs name := by
  unfold Expr.freeAs
  split
  · next self value other =>
    split
    · next h =>
      obtain ⟨-, rfl, rfl⟩ := h
      refine (List.mem_append.1 hx).resolve_right fun hself => hempty ?_
      exact List.mem_singleton.1 (mem_stillFree.1 hself).1
    · exact hx
  · exact hx

/-- The thunk that makes a recursive function has to find what is free in the function. -/
theorem Expr.freeAs_recursive (name : String) (value : Expr) :
    (Expr.letIn (.recursive name value) (.symbol name)).freeAs name = stillFree [name] value.free := by
  by_cases hempty : name = ""
  · rw [Expr.freeAs, if_pos ⟨hempty, hempty, hempty⟩, hempty]
  · rw [Expr.freeAs_of_ne hempty]
    show stillFree [name] value.free ++ stillFree [name] [name] = stillFree [name] value.free
    rw [stillFree_self hempty, List.append_nil]

end FreeAs

/-! ### Parts of lists -/

section Parts

theorem Expr.freeAll_eq (es : List Expr) : Expr.freeAll es = es.flatMap Expr.free := by
  induction es with
  | nil => rfl
  | cons e es ih => rw [Expr.freeAll, ih, List.flatMap_cons]

theorem Expr.freePairs_eq (ps : List (Expr × Expr)) :
    Expr.freePairs ps = ps.flatMap fun p => p.1.free ++ p.2.free := by
  induction ps with
  | nil => rfl
  | cons p ps ih => rw [Expr.freePairs, ih, List.flatMap_cons]

theorem Decl.freeBindings_eq (bindings : List (String × Expr)) :
    Decl.freeBindings bindings = bindings.flatMap fun p => p.2.free := by
  induction bindings with
  | nil => rfl
  | cons p bindings ih => rw [Decl.freeBindings, ih, List.flatMap_cons]

/-- What is free in an item is free in the items. -/
theorem subset_flatMap {α : Type} {f : α → List String} {a : α} {as : List α} (h : a ∈ as) :
    f a ⊆ as.flatMap f :=
  fun _ hx => List.mem_flatMap.2 ⟨a, h, hx⟩

end Parts

end Treewalk
