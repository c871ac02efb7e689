import Treewalk.Expr.Concrete
import Treewalk.Value.Basic

/-!
# Values as text

`Value.display` writes data the way its literal is written, and a function by its parameters.
-/

namespace Treewalk.Value

mutual

/-- A value as text. -/
def display : Value → String
  | .unit => "()"
  | .int n => displayInt n
  | .bool b => displayBool b
  | .str s => Text.quote s
  | .list [] => "[]"
  | .list (v :: vs) => displayItems vs ("[" ++ display v) ++ "]"
  | .dict [] => "\x7b\x7d"
  | .dict ((k, v) :: pairs) => displayPairs pairs ("\x7b" ++ display k ++ ":" ++ display v) ++ "\x7d"
  | .closure _ none params _ _ => "(fun " ++ " ".intercalate params ++ " -> ...)"
  | .closure _ (some name) params _ _ => name ++ " = (rec fun " ++ " ".intercalate params ++ " -> ...)"
  | .primitive builtin _ => "<builtin " ++ builtin.name ++ ">"

/-- The further items of a list, after the text of those before them. -/
def displayItems : List Value → String → String
  | [], text => text
  | v :: vs, text => displayItems vs (text ++ "; " ++ display v)

/-- The further pairs of a dictionary, after the text of those before them. -/
def displayPairs : List (Value × Value) → String → String
  | [], text => text
  | (k, v) :: pairs, text => displayPairs pairs (text ++ ", " ++ display k ++ ":" ++ display v)

end

end Treewalk.Value
