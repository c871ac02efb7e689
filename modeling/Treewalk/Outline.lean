import Treewalk.Json.Basic
import Treewalk.Text.Quoted

/-!
# Outlines

An `Outline` shows how a piece of data is put together: the names of its constructors and fields, in the order in
which they are declared. It has two notations. `Outline.render` is text on one line, for diagnostics. `Outline.toJson`
is JSON, in which a constructor is an object with one member, or only its name if it holds no data.
-/

namespace Treewalk

/-- How a piece of data is put together. -/
inductive Outline where
  | int (n : Int)
  | bool (b : Bool)
  | text (s : String)
  | list (items : List Outline)
  | tuple (items : List Outline)
  /-- A constructor with its arguments. -/
  | ctor (name : String) (args : List Outline)
  /-- A constructor with named arguments, some of which may be left out. -/
  | fields (name : String) (fields : List (String × Outline)) (abridged : Bool)
  /-- A record, whose name JSON does not show. -/
  | record (name : String) (fields : List (String × Outline))
  deriving Inhabited

namespace Outline

/-- Texts with commas between them. -/
def commas (texts : List String) : String :=
  ", ".intercalate texts

mutual

/-- An outline as text on one line. -/
def render : Outline → String
  | .int n => toString n
  | .bool b => if b then "true" else "false"
  | .text s => Text.quote s
  | .list items => "[" ++ commas (renderAll items) ++ "]"
  | .tuple items => "(" ++ commas (renderAll items) ++ ")"
  | .ctor name [] => name
  | .ctor name (arg :: args) => name ++ "(" ++ commas (render arg :: renderAll args) ++ ")"
  | .fields name parts abridged =>
    name ++ " \x7b " ++ commas (renderFields parts ++ if abridged then [".."] else []) ++ " \x7d"
  | .record name parts => name ++ " \x7b " ++ commas (renderFields parts) ++ " \x7d"

/-- The texts of several outlines. -/
def renderAll : List Outline → List String
  | [] => []
  | o :: os => render o :: renderAll os

/-- The texts of several fields. -/
def renderFields : List (String × Outline) → List String
  | [] => []
  | (name, o) :: parts => (name ++ ": " ++ render o) :: renderFields parts

end

mutual

/-- An outline as JSON. -/
def toJson : Outline → Json
  | .int n => .ofInt n
  | .bool b => .bool b
  | .text s => .ofString s
  | .list items => .array (toJsonAll items)
  | .tuple items => .array (toJsonAll items)
  | .ctor name [] => .ofString name
  | .ctor name [arg] => .object [(some name, toJson arg)]
  | .ctor name (arg :: args) => .object [(some name, .array (toJson arg :: toJsonAll args))]
  | .fields name parts _ => .object [(some name, .object (toJsonFields parts))]
  | .record _ parts => .object (toJsonFields parts)

/-- The values of several outlines. -/
def toJsonAll : List Outline → List Json
  | [] => []
  | o :: os => toJson o :: toJsonAll os

/-- The members of an object, one for each field. -/
def toJsonFields : List (String × Outline) → List (Option String × Json)
  | [] => []
  | (name, o) :: parts => (some name, toJson o) :: toJsonFields parts

end

end Outline

end Treewalk
