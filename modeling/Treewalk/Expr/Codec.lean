import Treewalk.Expr.Outline
import Treewalk.Expr.Schema
import Treewalk.Json.Reader
import Treewalk.Json.Writer
import Treewalk.Text.Decimal

/-!
# Expressions as JSON

An expression is encoded as the JSON of its outline (`Expr.encode`). Decoding (`Expr.decode?`) also accepts the other
spellings of the same outline: a constructor without data may be an object whose member is `null`, named fields may
come in any order and with unknown ones among them, or as an array in the declared order. What a constructor holds is
looked up in the schema, so one reader (`Part.read`) covers them all.
-/

namespace Treewalk.Codec

/-- The name of a constructor without data, in either spelling. -/
def bareName? : Json → Option String
  | .text name => name
  | .object [(some name, .null)] => some name
  | _ => none

/-- The 64-bit integer that a lexeme writes. A fraction or an exponent makes it no integer, and so does a minus sign
before zero. -/
def int64OfLexeme? (lexeme : String) : Option Int64 := do
  match lexeme.toList with
  | '-' :: digits =>
    let n ← Text.natOfDigits? digits
    if 0 < n ∧ n ≤ 0x8000000000000000 then some (Int64.ofInt (-n)) else none
  | digits =>
    let n ← Text.natOfDigits? digits
    if n < 0x8000000000000000 then some (Int64.ofNat n) else none

/-- The sign with the given name. -/
def signOfTag? : String → Option Unary
  | "Not" => some .not
  | "Neg" => some .neg
  | _ => none

mutual

/-- The data of the given kind that a JSON value spells. -/
def Part.read : (part : Part) → Json → Option part.Content
  | .expr, .text (some name) => (shape? name).bind Shape.bare?
  | .expr, .object [(some name, payload)] =>
    match shape? name with
    | some (.bare e) => if payload.isNull then some e else none
    | some (.single part build) => (part.read payload).map build
    | some (.fields fields build) =>
      match payload with
      | .object members => (fields.readMembers fields.noneRead members).map build
      | .array items => (fields.readItems items).map build
      | _ => none
    | none => none
  | .chain, .text (some name) => if name = "Empty" then some [] else none
  | .chain, .object [(some name, .null)] => if name = "Empty" then some [] else none
  | .chain, .object [(some name, .array [item, rest])] =>
    if name = "Cons" then do return (← Part.expr.read item) :: (← Part.chain.read rest) else none
  | .pair, .array [key, value] => do return (← Part.expr.read key, ← Part.expr.read value)
  | .binding, .object members =>
    (Fields.readMembers bindingFields (Fields.noneRead bindingFields) members).map fun (name, e, _) => (name, e)
  | .binding, .array items => (Fields.readItems bindingFields items).map fun (name, e, _) => (name, e)
  | .string, .text s => s
  | .integer, .number lexeme => int64OfLexeme? lexeme
  | .boolean, .bool b => some b
  | .operator, j => (bareName? j).bind Operator.ofTag?
  | .sign, j => (bareName? j).bind signOfTag?
  | .many part, .array items => part.readAll items
  | _, _ => none

/-- The data that the items of an array spell, all of one kind. -/
def Part.readAll : (part : Part) → List Json → Option (List part.Content)
  | _, [] => some []
  | part, j :: js => do return (← part.read j) :: (← part.readAll js)

/-- The values of the fields in their declared order. -/
def Fields.readItems : (fields : Fields) → List Json → Option fields.Values
  | [], [] => some ()
  | (_, part) :: fields, j :: js => do return (← part.read j, ← Fields.readItems fields js)
  | _, _ => none

/-- The values of the fields, in any order, some of which may have been read. -/
def Fields.readMembers : (fields : Fields) → fields.Slots → List (Option String × Json) → Option fields.Values
  | fields, slots, [] => fields.values? slots
  | fields, slots, (some name, j) :: members => do
    Fields.readMembers fields (← fields.put name (fun part => part.read j) slots) members
  | _, _, (none, _) :: _ => none

end

end Treewalk.Codec

namespace Treewalk.Expr

/-- The expression that a JSON value spells. -/
def ofJson? (j : Json) : Option Expr :=
  Codec.Part.expr.read j

/-- The expression that a JSON text spells. -/
def decode? (s : String) : Option Expr := do
  ofJson? (← Json.parse? s)

/-- An expression as JSON text without blanks. -/
def encode (e : Expr) : String :=
  e.outline.toJson.compact

end Treewalk.Expr
