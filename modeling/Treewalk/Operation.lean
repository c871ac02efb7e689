import Treewalk.Dict
import Treewalk.Failure
import Treewalk.Value.Concrete

/-!
# Operations on values

What the operators, and the operations on lists and dictionaries, do with values. Arithmetic is that of the integers,
refused when a result does not fit in 64 bits (`fit`); division goes toward zero. Equality accepts any two values,
and every other operator refuses the types it has no meaning for.

`Operator.testsIdentity` and its companions tell which operations have to tell two functions apart.
-/

namespace Treewalk

/-- The result of an integer operation, if 64 bits can hold it. -/
def fit (operation : String) (n : Int) : Except Cause Value :=
  if -0x8000000000000000 ≤ n ∧ n < 0x8000000000000000 then .ok (.int (Int64.ofInt n)) else .error (.overflow operation)

namespace Operator

/-- Whether a comparison holds of two members of an ordered type. -/
def compares {α : Type} [LT α] [LE α] [DecidableLT α] [DecidableLE α] [BEq α] (op : Operator) (a b : α) : Bool :=
  match op with
  | .lt => a < b
  | .le => a ≤ b
  | .gt => b < a
  | .ge => b ≤ a
  | .eq => a == b
  | _ => a != b

/-- The refusal of two operands. -/
def mismatch (op : Operator) (a b : Value) : Except Cause Value :=
  .error (.operandMismatch op a.typeName b.typeName)

/-- An operator on two values. -/
def apply (op : Operator) (a b : Value) : Except Cause Value :=
  match op with
  | .eq => .ok (.bool (a == b))
  | .ne => .ok (.bool (!(a == b)))
  | .lt | .le | .gt | .ge =>
    match a, b with
    | .int m, .int n => .ok (.bool (op.compares m n))
    | .bool p, .bool q => .ok (.bool (op.compares p q))
    | .str s, .str t => .ok (.bool (op.compares s t))
    | _, _ => op.mismatch a b
  | .add =>
    match a, b with
    | .int m, .int n => fit "addition" (m.toInt + n.toInt)
    | _, _ => op.mismatch a b
  | .sub =>
    match a, b with
    | .int m, .int n => fit "subtraction" (m.toInt - n.toInt)
    | _, _ => op.mismatch a b
  | .mul =>
    match a, b with
    | .int m, .int n => fit "multiplication" (m.toInt * n.toInt)
    | _, _ => op.mismatch a b
  | .div =>
    match a, b with
    | .int m, .int n => if n = 0 then .error .divisionByZero else fit "division" (m.toInt.tdiv n.toInt)
    | _, _ => op.mismatch a b
  | .mod =>
    match a, b with
    | .int m, .int n =>
      if n = 0 then .error .moduloByZero
      else do
        let _ ← fit "modulo" (m.toInt.tdiv n.toInt)
        fit "modulo" (m.toInt.tmod n.toInt)
    | _, _ => op.mismatch a b
  | .and =>
    match a, b with
    | .bool p, .bool q => .ok (.bool (p && q))
    | _, _ => op.mismatch a b
  | .or =>
    match a, b with
    | .bool p, .bool q => .ok (.bool (p || q))
    | _, _ => op.mismatch a b
  | .concat =>
    match a, b with
    | .str s, .str t => .ok (.str (s ++ t))
    | .list as, .list bs => .ok (.list (as ++ bs))
    | _, _ => op.mismatch a b

/-- Whether the operator has to tell two functions apart. -/
def testsIdentity (op : Operator) (a b : Value) : Bool :=
  match op with
  | .eq | .ne => a.testsIdentity b
  | _ => false

end Operator

namespace Value

/-- The items of a list. -/
def items : Value → Except Cause (List Value)
  | .list items => .ok items
  | v => .error (.typeMismatch "list" v.typeName)

/-- The pairs of a dictionary. -/
def pairs : Value → Except Cause Dict
  | .dict pairs => .ok pairs
  | v => .error (.typeMismatch "dict" v.typeName)

/-- The first item of a list. -/
def head (list : Value) : Except Cause Value := do
  match ← list.items with
  | [] => .error (.emptyList "head")
  | v :: _ => .ok v

/-- A list without its first item. -/
def tail (list : Value) : Except Cause Value := do
  match ← list.items with
  | [] => .error (.emptyList "tail")
  | _ :: vs => .ok (.list vs)

/-- A list with one more item at the front. -/
def cons (v list : Value) : Except Cause Value := do
  return .list (v :: (← list.items))

/-- The number of items, pairs or characters. -/
def length : Value → Except Cause Value
  | .list items => fit "length" items.length
  | .dict pairs => fit "length" pairs.length
  | .str s => fit "length" s.length
  | v => .error (.typeMismatch "list, dict or string" v.typeName)

/-- The opposite truth value. -/
def not : Value → Except Cause Value
  | .bool b => .ok (.bool !b)
  | v => .error (.typeMismatch "bool" v.typeName)

/-- The opposite integer. -/
def neg : Value → Except Cause Value
  | .int n => fit "negation" (-n.toInt)
  | v => .error (.typeMismatch "int" v.typeName)

/-- A dictionary with a value stored under a key. -/
def insert (key value dict : Value) : Except Cause Value := do
  return .dict ((← dict.pairs).insert key value)

/-- A dictionary without a key. -/
def delete (key dict : Value) : Except Cause Value := do
  return .dict ((← dict.pairs).erase key)

/-- Whether a dictionary has a key. -/
def hasKey (key dict : Value) : Except Cause Value := do
  return .bool ((← dict.pairs).contains key)

/-- What a dictionary stores under a key. -/
def getKey (key dict : Value) : Except Cause Value := do
  match (← dict.pairs).get? key with
  | some v => .ok v
  | none => .error (.keyNotFound key.display)

/-- Whether the search for a key has to tell two functions apart. -/
def searchTestsIdentity (key : Value) : Value → Bool
  | .dict pairs => Dict.testsIdentity key pairs
  | _ => false

end Value

/-- A unary operation on a value. -/
def Unary.apply : Unary → Value → Except Cause Value
  | .not => Value.not
  | .neg => Value.neg
  | .head => Value.head
  | .tail => Value.tail

/-- A binary operation on two values. -/
def Binary.apply : Binary → Value → Value → Except Cause Value
  | .operator op => op.apply
  | .cons => Value.cons
  | .delete => Value.delete
  | .hasKey => Value.hasKey
  | .getKey => Value.getKey

/-- Whether the operation has to tell two functions apart. -/
def Binary.testsIdentity (op : Binary) (a b : Value) : Bool :=
  match op with
  | .operator op => op.testsIdentity a b
  | .cons => false
  | .delete | .hasKey | .getKey => a.searchTestsIdentity b

end Treewalk
