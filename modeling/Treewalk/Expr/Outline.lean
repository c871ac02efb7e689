import Treewalk.Expr.Basic
import Treewalk.Outline

/-!
# The outline of an expression

`Expr.outline` names every constructor and field of an expression. A list literal is a chain of cells, each with
its first item and the chain of the others.
-/

namespace Treewalk

/-- The outline of an operator, which holds no data. -/
def Operator.outline (op : Operator) : Outline :=
  .ctor op.tag []

namespace Expr

/-- The outline of the binding of a name. -/
def outlineBinding (name : String) (value : Outline) : Outline :=
  .record "LetBinding" [("name", .text name), ("value", value)]

mutual

/-- The outline of an expression. -/
def outline : Expr → Outline
  | .unit => .ctor "Unit" []
  | .integer n => .ctor "Integer" [.int n.toInt]
  | .boolean b => .ctor "Boolean" [.bool b]
  | .string s => .ctor "String" [.text s]
  | .list items => .ctor "List" [outlineChain items]
  | .dict pairs => .ctor "Dict" [.list (outlinePairs pairs)]
  | .symbol name => .ctor "Symbol" [.text name]
  | .head e => .ctor "Head" [outline e]
  | .tail e => .ctor "Tail" [outline e]
  | .not e => .fields "Unary" [("op", .ctor "Not" []), ("operand", outline e)] false
  | .neg e => .fields "Unary" [("op", .ctor "Neg" []), ("operand", outline e)] false
  | .operator op l r => .fields "Binary" [("op", op.outline), ("left", outline l), ("right", outline r)] false
  | .cons e l => .fields "Cons" [("elem", outline e), ("list", outline l)] false
  | .delete k d => .fields "DictDelete" [("key", outline k), ("dict", outline d)] false
  | .hasKey k d => .fields "DictHasKey" [("key", outline k), ("dict", outline d)] false
  | .getKey k d => .fields "DictGetKey" [("key", outline k), ("dict", outline d)] false
  | .insert k v d => .fields "DictInsert" [("key", outline k), ("value", outline v), ("dict", outline d)] false
  | .map coll func => .fields "Mapv" [("coll", outline coll), ("func", outline func)] false
  | .fold coll func => .fields "Fold" [("coll", outline coll), ("func", outline func)] false
  | .filter coll func => .fields "Filter" [("coll", outline coll), ("func", outline func)] false
  | .branch c y n =>
    .fields "IfThenElse" [("cond", outline c), ("then_branch", outline y), ("else_branch", outline n)] false
  | .letIn (.eager bs) body => .fields "Let" [("bindings", .list (outlineBindings bs)), ("body", outline body)] false
  | .letIn (.lazy bs) body =>
    .fields "Letlazy" [("bindings", .list (outlineBindings bs)), ("body", outline body)] false
  | .letIn (.recursive name e) body =>
    .fields "Letrec" [("binding", outlineBinding name (outline e)), ("body", outline body)] false
  | .letIn (.lazyRecursive name e) body =>
    .fields "Letreclazy" [("binding", outlineBinding name (outline e)), ("body", outline body)] false
  | .declare (.eager bs) => .ctor "Def" [.list (outlineBindings bs)]
  | .declare (.lazy bs) => .ctor "Deflazy" [.list (outlineBindings bs)]
  | .declare (.recursive name e) => .ctor "Defrec" [outlineBinding name (outline e)]
  | .declare (.lazyRecursive name e) => .ctor "Defreclazy" [outlineBinding name (outline e)]
  | .lambda params body => .fields "Lambda" [("params", .list (params.map .text)), ("body", outline body)] false
  | .apply callee args => .fields "Apply" [("callee", outline callee), ("args", .list (outlineAll args))] false
  | .sequence items => .ctor "Sequence" [.list (outlineAll items)]
  | .pipe func arg => .fields "Pipe" [("func", outline func), ("arg", outline arg)] false

/-- The outlines of several expressions. -/
def outlineAll : List Expr → List Outline
  | [] => []
  | e :: es => outline e :: outlineAll es

/-- The outline of a list literal. -/
def outlineChain : List Expr → Outline
  | [] => .ctor "Empty" []
  | e :: es => .ctor "Cons" [outline e, outlineChain es]

/-- The outlines of the pairs of a dictionary literal. -/
def outlinePairs : List (Expr × Expr) → List Outline
  | [] => []
  | (k, v) :: pairs => .tuple [outline k, outline v] :: outlinePairs pairs

/-- The outlines of a group of bindings. -/
def outlineBindings : List (String × Expr) → List Outline
  | [] => []
  | (name, e) :: bindings => outlineBinding name (outline e) :: outlineBindings bindings

end

end Expr

end Treewalk
