import Treewalk.Expr.Outline
import Treewalk.Value.Basic

/-!
# The outline of a value

The environment of a function is left out of its outline.
-/

namespace Treewalk.Value

mutual

/-- The outline of a value. -/
def outline : Value → Outline
  | .unit => .ctor "Unit" []
  | .int n => .ctor "Int" [.int n.toInt]
  | .bool b => .ctor "Bool" [.bool b]
  | .str s => .ctor "Str" [.text s]
  | .list items => .ctor "List" [.list (outlineAll items)]
  | .dict pairs => .ctor "Dict" [.list (outlinePairs pairs)]
  | .closure _ none params body _ =>
    .fields "Closure" [("params", .list (params.map .text)), ("body", body.outline)] true
  | .closure _ (some name) params body _ =>
    .fields "RecClosure" [("name", .text name), ("params", .list (params.map .text)), ("body", body.outline)] true
  | .primitive builtin args =>
    .fields "PrimitiveValue" [("builtin", .ctor builtin.tag []), ("args", .list (outlineAll args))] false

/-- The outlines of several values. -/
def outlineAll : List Value → List Outline
  | [] => []
  | v :: vs => outline v :: outlineAll vs

/-- The outlines of several pairs of values. -/
def outlinePairs : List (Value × Value) → List Outline
  | [] => []
  | (k, v) :: pairs => .tuple [outline k, outline v] :: outlinePairs pairs

end

end Treewalk.Value
