import Treewalk.Value.Basic

/-!
# Equality and order of values

Equality is structural and total: values of different types differ, a dictionary is compared pair by pair in order,
and functions are compared by their identity. `Value.testsIdentity` tells whether a comparison gets as far as two
functions; only then can its answer depend on when functions were made. Integers, strings and truth values are
ordered, and nothing else is (`Value.compare?`).
-/

namespace Treewalk.Value

mutual

/-- Whether two values are equal. -/
def beq : Value → Value → Bool
  | .unit, .unit => true
  | .int a, .int b => a == b
  | .bool a, .bool b => a == b
  | .str a, .str b => a == b
  | .list as, .list bs => beqAll as bs
  | .dict ps, .dict qs => beqPairs ps qs
  | .closure i f _ _ _, .closure j g _ _ _ => i == j && f.isSome == g.isSome
  | .primitive f as, .primitive g bs => f == g && beqAll as bs
  | _, _ => false

/-- Whether two lists of values are equal item by item. -/
def beqAll : List Value → List Value → Bool
  | [], [] => true
  | a :: as, b :: bs => beq a b && beqAll as bs
  | _, _ => false

/-- Whether two lists of pairs are equal pair by pair. -/
def beqPairs : List (Value × Value) → List (Value × Value) → Bool
  | [], [] => true
  | (k, v) :: ps, (l, w) :: qs => beq k l && beq v w && beqPairs ps qs
  | _, _ => false

end

instance : BEq Value := ⟨beq⟩

/-! ## The course of a comparison -/

/-- The answer of a comparison, and whether it had to tell two functions apart. -/
structure Comparison where
  equal : Bool
  byIdentity : Bool
  deriving DecidableEq, Repr

namespace Comparison

/-- A comparison that is settled without looking at functions. -/
abbrev plain (equal : Bool) : Comparison := ⟨equal, false⟩

/-- A comparison that comes after others, some of which may have looked at functions. -/
abbrev after (c : Comparison) (byIdentity : Bool) : Comparison := ⟨c.equal, byIdentity || c.byIdentity⟩

end Comparison

mutual

/-- The course of the comparison of two values. Lists of different lengths are told apart by their lengths. -/
def course : Value → Value → Comparison
  | .list as, .list bs => if as.length = bs.length then courseAll as bs false else .plain false
  | .dict ps, .dict qs => if ps.length = qs.length then coursePairs ps qs false else .plain false
  | .closure i f _ _ _, .closure j g _ _ _ => ⟨i == j && f.isSome == g.isSome, f.isSome == g.isSome⟩
  | .primitive f as, .primitive g bs =>
    if f = g ∧ as.length = bs.length then courseAll as bs false else .plain false
  | a, b => .plain (beq a b)

/-- The course of the comparison of two lists, which ends at the first difference. -/
def courseAll : List Value → List Value → Bool → Comparison
  | [], [], byIdentity => ⟨true, byIdentity⟩
  | a :: as, b :: bs, byIdentity =>
    let c := (course a b).after byIdentity
    if c.equal then courseAll as bs c.byIdentity else c
  | _, _, byIdentity => ⟨false, byIdentity⟩

/-- The course of the comparison of two lists of pairs, which ends at the first difference. -/
def coursePairs : List (Value × Value) → List (Value × Value) → Bool → Comparison
  | [], [], byIdentity => ⟨true, byIdentity⟩
  | (k, v) :: ps, (l, w) :: qs, byIdentity =>
    let c := (course k l).after byIdentity
    if c.equal then
      let d := (course v w).after c.byIdentity
      if d.equal then coursePairs ps qs d.byIdentity else d
    else c
  | _, _, byIdentity => ⟨false, byIdentity⟩

end

theorem beqAll_of_length_ne : ∀ {as bs : List Value}, as.length ≠ bs.length → beqAll as bs = false
  | [], [], h => absurd rfl h
  | [], _ :: _, _ => rfl
  | _ :: _, [], _ => rfl
  | a :: as, b :: bs, h => by
    simp [beqAll, beqAll_of_length_ne (fun e => h (congrArg (· + 1) e))]

theorem beqPairs_of_length_ne : ∀ {ps qs : List (Value × Value)}, ps.length ≠ qs.length → beqPairs ps qs = false
  | [], [], h => absurd rfl h
  | [], _ :: _, _ => rfl
  | _ :: _, [], _ => rfl
  | (k, v) :: ps, (l, w) :: qs, h => by
    simp [beqPairs, beqPairs_of_length_ne (fun e => h (congrArg (· + 1) e))]

mutual

/-- A comparison answers whether the values are equal. -/
theorem equal_course : ∀ a b : Value, (course a b).equal = beq a b
  | .list as, b => by
    cases b <;> try rfl
    case list bs =>
      by_cases h : as.length = bs.length
      · simp [course, beq, h, equal_courseAll as bs false]
      · simp [course, beq, h, beqAll_of_length_ne h]
  | .dict ps, b => by
    cases b <;> try rfl
    case dict qs =>
      by_cases h : ps.length = qs.length
      · simp [course, beq, h, equal_coursePairs ps qs false]
      · simp [course, beq, h, beqPairs_of_length_ne h]
  | .primitive f as, b => by
    cases b <;> try rfl
    case primitive g bs =>
      by_cases h : as.length = bs.length
      · by_cases hf : f = g <;> simp [course, beq, h, hf, equal_courseAll as bs false]
      · simp [course, beq, h, beqAll_of_length_ne h]
  | .closure _ _ _ _ _, b => by cases b <;> rfl
  | .unit, b => by cases b <;> rfl
  | .int _, b => by cases b <;> rfl
  | .bool _, b => by cases b <;> rfl
  | .str _, b => by cases b <;> rfl

theorem equal_courseAll : ∀ (as bs : List Value) (t : Bool), (courseAll as bs t).equal = beqAll as bs
  | [], bs, _ => by cases bs <;> rfl
  | _ :: _, [], _ => rfl
  | a :: as, b :: bs, t => by
    have h := equal_course a b
    cases hb : beq a b <;> simp [courseAll, beqAll, h, hb, equal_courseAll as bs]

theorem equal_coursePairs :
    ∀ (ps qs : List (Value × Value)) (t : Bool), (coursePairs ps qs t).equal = beqPairs ps qs
  | [], qs, _ => by cases qs <;> rfl
  | _ :: _, [], _ => rfl
  | (k, v) :: ps, (l, w) :: qs, t => by
    have hk := equal_course k l
    have hv := equal_course v w
    cases hb : beq k l <;> cases hc : beq v w <;>
      simp [coursePairs, beqPairs, hk, hv, hb, hc, equal_coursePairs ps qs]

end

/-- Whether comparing two values has to tell two functions apart. -/
def testsIdentity (a b : Value) : Bool :=
  (course a b).byIdentity

/-! ## Order -/

/-- The order of two values of one ordered type. -/
def compare? : Value → Value → Option Ordering
  | .int a, .int b => some (compare a b)
  | .str a, .str b => some (compare a b)
  | .bool a, .bool b => some (compare a b)
  | _, _ => none

end Treewalk.Value
