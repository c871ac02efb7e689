/-!
# JSON values

A `Json` keeps a document as it was written: numbers by their digits, members in their order and with repetitions.
A text is `none` when its escapes name a surrogate without its partner: such a text is well formed and holds no
string.
-/

namespace Treewalk

/-- A JSON value. -/
inductive Json where
  | null
  | bool (b : Bool)
  /-- A number, by the characters it is written with. -/
  | number (lexeme : String)
  | text (s : Option String)
  | array (items : List Json)
  | object (members : List (Option String × Json))
  deriving Inhabited

namespace Json

/-- The text that holds the string `s`. -/
abbrev ofString (s : String) : Json :=
  .text (some s)

/-- A whole number. -/
def ofInt (n : Int) : Json :=
  .number (toString n)

/-- An object with the given names and values. -/
def ofMembers (members : List (String × Json)) : Json :=
  .object (members.map fun (name, value) => (some name, value))

/-- Whether a value is `null`. -/
def isNull : Json → Bool
  | .null => true
  | _ => false

/-- The value of the first member called `name`. -/
def get? (j : Json) (name : String) : Option Json :=
  match j with
  | .object members => (members.find? (·.1 == some name)).map (·.2)
  | _ => none

end Json

end Treewalk
