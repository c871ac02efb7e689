import Treewalk.Expr.Basic

/-!
# What an encoded expression is made of

`Part` lists the kinds of data in an encoded expression, `Fields` the named fields of a constructor, and `shape?` says
of each constructor what it holds and how it is built from that. The types of the values follow from the kinds
(`Part.Content`, `Fields.Values`), so building cannot fail.
-/

namespace Treewalk.Codec

/-- The kinds of data in an encoded expression. -/
inductive Part where
  | expr
  /-- The items of a list literal. -/
  | chain
  /-- A key and a value of a dictionary literal. -/
  | pair
  /-- A name and its right-hand side. -/
  | binding
  | string
  | integer
  | boolean
  | operator
  /-- An operation written as a sign before its operand. -/
  | sign
  | many (part : Part)

namespace Part

/-- What the data of a kind is read as. -/
abbrev Content : Part → Type
  | .expr => Expr
  | .chain => List Expr
  | .pair => Expr × Expr
  | .binding => String × Expr
  | .string => String
  | .integer => Int64
  | .boolean => Bool
  | .operator => Operator
  | .sign => Unary
  | .many part => List part.Content

end Part

/-- The names and kinds of the fields of a constructor. -/
abbrev Fields : Type := List (String × Part)

namespace Fields

/-- One value for each field. -/
abbrev Values : Fields → Type
  | [] => Unit
  | (_, part) :: fields => part.Content × Values fields

/-- For each field, its value if it has been read. -/
abbrev Slots : Fields → Type
  | [] => Unit
  | (_, part) :: fields => Option part.Content × Slots fields

/-- No field has been read. -/
def noneRead : (fields : Fields) → fields.Slots
  | [] => ()
  | _ :: fields => (none, noneRead fields)

/-- The values of the fields, if every one has been read. -/
def values? : (fields : Fields) → fields.Slots → Option fields.Values
  | [], () => some ()
  | _ :: fields, (slot, slots) => do return (← slot, ← values? fields slots)

/-- Reads the value of the field `name`. A field cannot be read twice, and an unknown one is passed over. -/
def put (name : String) (read : (part : Part) → Option part.Content) :
    (fields : Fields) → fields.Slots → Option fields.Slots
  | [], () => some ()
  | (field, part) :: fields, (slot, slots) =>
    if field = name then
      match slot with
      | some _ => none
      | none => do return (some (← read part), slots)
    else do return (slot, ← put name read fields slots)

end Fields

/-- What a constructor of expressions holds, and how it is built. -/
inductive Shape where
  | bare (e : Expr)
  | single (part : Part) (build : part.Content → Expr)
  | fields (fields : Fields) (build : fields.Values → Expr)

/-- The expression of a constructor that holds nothing. -/
def Shape.bare? : Shape → Option Expr
  | .bare e => some e
  | _ => none

/-- The constructor with the given name. -/
def shape? : String → Option Shape
  | "Unit" => some (.bare .unit)
  | "Integer" => some (.single .integer .integer)
  | "Boolean" => some (.single .boolean .boolean)
  | "String" => some (.single .string .string)
  | "List" => some (.single .chain .list)
  | "Dict" => some (.single (.many .pair) .dict)
  | "Symbol" => some (.single .string .symbol)
  | "Head" => some (.single .expr .head)
  | "Tail" => some (.single .expr .tail)
  | "Cons" => some (.fields [("elem", .expr), ("list", .expr)] fun (e, l, _) => .cons e l)
  | "DictInsert" =>
    some (.fields [("key", .expr), ("value", .expr), ("dict", .expr)] fun (k, v, d, _) => .insert k v d)
  | "DictDelete" => some (.fields [("key", .expr), ("dict", .expr)] fun (k, d, _) => .delete k d)
  | "DictHasKey" => some (.fields [("key", .expr), ("dict", .expr)] fun (k, d, _) => .hasKey k d)
  | "DictGetKey" => some (.fields [("key", .expr), ("dict", .expr)] fun (k, d, _) => .getKey k d)
  | "Mapv" => some (.fields [("coll", .expr), ("func", .expr)] fun (c, f, _) => .map c f)
  | "Fold" => some (.fields [("coll", .expr), ("func", .expr)] fun (c, f, _) => .fold c f)
  | "Filter" => some (.fields [("coll", .expr), ("func", .expr)] fun (c, f, _) => .filter c f)
  | "Binary" =>
    some (.fields [("op", .operator), ("left", .expr), ("right", .expr)] fun (op, l, r, _) => .operator op l r)
  | "Unary" => some (.fields [("op", .sign), ("operand", .expr)] fun (op, e, _) => .unary op e)
  | "IfThenElse" =>
    some (.fields [("cond", .expr), ("then_branch", .expr), ("else_branch", .expr)]
      fun (c, y, n, _) => .branch c y n)
  | "Let" => some (.fields [("bindings", .many .binding), ("body", .expr)] fun (bs, e, _) => .letIn (.eager bs) e)
  | "Letlazy" => some (.fields [("bindings", .many .binding), ("body", .expr)] fun (bs, e, _) => .letIn (.lazy bs) e)
  | "Letrec" =>
    some (.fields [("binding", .binding), ("body", .expr)] fun (b, e, _) => .letIn (.recursive b.1 b.2) e)
  | "Letreclazy" =>
    some (.fields [("binding", .binding), ("body", .expr)] fun (b, e, _) => .letIn (.lazyRecursive b.1 b.2) e)
  | "Def" => some (.single (.many .binding) fun bs => .declare (.eager bs))
  | "Deflazy" => some (.single (.many .binding) fun bs => .declare (.lazy bs))
  | "Defrec" => some (.single .binding fun b => .declare (.recursive b.1 b.2))
  | "Defreclazy" => some (.single .binding fun b => .declare (.lazyRecursive b.1 b.2))
  | "Lambda" => some (.fields [("params", .many .string), ("body", .expr)] fun (ps, e, _) => .lambda ps e)
  | "Apply" => some (.fields [("callee", .expr), ("args", .many .expr)] fun (f, es, _) => .apply f es)
  | "Sequence" => some (.single (.many .expr) .sequence)
  | "Pipe" => some (.fields [("func", .expr), ("arg", .expr)] fun (f, e, _) => .pipe f e)
  | _ => none

/-- The fields of the binding of a name. -/
abbrev bindingFields : Fields := [("name", .string), ("value", .expr)]

end Treewalk.Codec
