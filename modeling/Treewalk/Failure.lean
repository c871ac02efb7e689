import Treewalk.Operator
import Treewalk.Outline

/-!
# Failures

A `Cause` says what went wrong in an evaluation, and a `Failure` is a cause with the frames that were open when it
arose. The wording of a cause is `Cause.message`, its class is `Cause.category`. The fatal class holds what is no
fault of the program: an exhausted depth limit, and popping an empty stack.
-/

namespace Treewalk

/-- What went wrong in an evaluation. -/
inductive Cause where
  | unboundVariable (name : String)
  /-- A recursive binding of something other than a lambda. -/
  | wrongBindingList (name : String)
  | typeMismatch (expected got : String)
  | operandMismatch (op : Operator) (left right : String)
  | notCallable (typeName : String)
  | emptyList (operation : String)
  | emptyFold
  | keyNotFound (key : String)
  | arityMismatch (name : String) (expected got : Nat)
  | emptySequence
  | divisionByZero
  | moduloByZero
  | overflow (operation : String)
  | stackUnderflow
  | recursionLimit (depth : Nat)
  deriving DecidableEq, Repr

/-- The classes of causes. -/
inductive Category where
  | unboundVariable
  | wrongBindingList
  | type
  | list
  | dict
  | shape
  | arithmetic
  | fatal
  deriving DecidableEq, Repr

/-- The word for a class of causes. -/
def Category.word : Category → String
  | .unboundVariable => "unbound-variable"
  | .wrongBindingList => "wrong-binding-list"
  | .type => "type"
  | .list => "list"
  | .dict => "dict"
  | .shape => "syntax"
  | .arithmetic => "arithmetic"
  | .fatal => "fatal"

namespace Cause

/-- The class of a cause. -/
def category : Cause → Category
  | .unboundVariable _ => .unboundVariable
  | .wrongBindingList _ => .wrongBindingList
  | .typeMismatch _ _ | .operandMismatch _ _ _ | .notCallable _ => .type
  | .emptyList _ | .emptyFold => .list
  | .keyNotFound _ => .dict
  | .arityMismatch _ _ _ | .emptySequence => .shape
  | .divisionByZero | .moduloByZero | .overflow _ => .arithmetic
  | .stackUnderflow | .recursionLimit _ => .fatal

/-- What a function of the given name, or without one, says to a wrong number of arguments. -/
def arityMessage (name : String) (expected got : Nat) : String :=
  (if name.isEmpty then "expected " else name ++ " expects ") ++ toString expected ++
    (if expected = 1 then " argument" else " arguments") ++ ", got " ++ toString got

/-- The wording of a cause. -/
def message : Cause → String
  | .unboundVariable name => "unbound variable: " ++ name
  | .wrongBindingList name =>
    "wrong binding list: `" ++ name ++ "` must be bound to a lambda in a recursive binding"
  | .typeMismatch expected got => "type mismatch: expected " ++ expected ++ ", got " ++ got
  | .operandMismatch op left right =>
    "operator `" ++ op.symbol ++ "` cannot be applied to `" ++ left ++ "` and `" ++ right ++ "`"
  | .notCallable typeName => typeName ++ " is not callable"
  | .emptyList operation => operation ++ " of an empty list"
  | .emptyFold => "fold of an empty collection"
  | .keyNotFound key => "key not found: " ++ key
  | .arityMismatch name expected got => arityMessage name expected got
  | .emptySequence => "empty sequence has no value"
  | .divisionByZero => "division by zero"
  | .moduloByZero => "modulo by zero"
  | .overflow operation => "integer overflow in " ++ operation
  | .stackUnderflow => "stack underflow: pop of an empty call stack"
  | .recursionLimit depth => "maximum recursion depth exceeded (limit: " ++ toString depth ++ ")"

/-- The name of a cause in structured notations. -/
def tag : Cause → String
  | .unboundVariable _ => "UnboundVariable"
  | .wrongBindingList _ => "WrongBindingList"
  | .typeMismatch _ _ => "TypeMismatch"
  | .operandMismatch _ _ _ => "BinaryTypeMismatch"
  | .notCallable _ => "NotCallable"
  | .emptyList _ => "EmptyList"
  | .emptyFold => "EmptyFold"
  | .keyNotFound _ => "KeyNotFound"
  | .arityMismatch _ _ _ => "ArityMismatch"
  | .emptySequence => "EmptySequence"
  | .divisionByZero => "DivisionByZero"
  | .moduloByZero => "ModuloByZero"
  | .overflow _ => "IntegerOverflow"
  | .stackUnderflow => "StackUnderflow"
  | .recursionLimit _ => "RecursionLimit"

/-- The data of a cause, by name. -/
def parts : Cause → List (String × Outline)
  | .unboundVariable name => [("name", .text name)]
  | .wrongBindingList name => [("name", .text name)]
  | .typeMismatch expected got => [("expected", .text expected), ("got", .text got)]
  | .operandMismatch op left right =>
    [("op", .ctor op.tag []), ("left", .text left), ("right", .text right)]
  | .notCallable typeName => [("type_name", .text typeName)]
  | .emptyList operation => [("operation", .text operation)]
  | .keyNotFound key => [("key", .text key)]
  | .arityMismatch name expected got => [("name", .text name), ("expected", .int expected), ("got", .int got)]
  | .overflow operation => [("operation", .text operation)]
  | .recursionLimit depth => [("depth", .int depth)]
  | .emptyFold | .emptySequence | .divisionByZero | .moduloByZero | .stackUnderflow => []

/-- The outline of a cause. -/
def outline (cause : Cause) : Outline :=
  match cause.parts with
  | [] => .ctor cause.tag []
  | parts => .fields cause.tag parts false

end Cause

/-! ## Backtraces -/

/-- The frames that were open when a cause arose, innermost first, each with its depth and the text of its
expression; `omitted` counts the outer frames that are not kept. -/
structure Backtrace where
  frames : List (Nat × String)
  omitted : Nat
  deriving DecidableEq, Repr

namespace Backtrace

/-- A backtrace on lines of its own, or nothing if it has no frames. -/
def display (trace : Backtrace) : String :=
  if trace.frames.isEmpty then ""
  else
    "stack backtrace:\n" ++
      String.join (trace.frames.map fun (depth, text) => "  " ++ toString depth ++ ": " ++ text ++ "\n") ++
      if 0 < trace.omitted then "  ... " ++ toString trace.omitted ++ " outer frames omitted\n" else ""

end Backtrace

/-- A cause and, once it has left a frame, the backtrace of the innermost frame it left. -/
structure Failure where
  cause : Cause
  backtrace : Option Backtrace := none
  deriving DecidableEq, Repr

namespace Failure

/-- Whether the failure is no fault of the program. -/
def isFatal (failure : Failure) : Bool :=
  failure.cause.category = .fatal

/-- A failure as it is reported: its class, its wording and its backtrace. -/
def report (failure : Failure) : String :=
  "error[" ++ failure.cause.category.word ++ "]: " ++ failure.cause.message ++ "\n" ++
    (failure.backtrace.map Backtrace.display).getD ""

end Failure

end Treewalk
