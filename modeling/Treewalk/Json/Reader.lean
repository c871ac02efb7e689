import Treewalk.Json.Token

/-!
# Reading JSON

The tokens of a document are put together by a second automaton: `Reader` is the place in the document that the
next token has to fit, with the containers that are open around it, and `Reader.step` takes one token. A document
is read when its last token completes the outermost value (`parse?`); nothing but blanks may surround it, and
containers may nest to any depth.
-/

namespace Treewalk.Json

/-- A container that is being read, with its parts so far, last part first. -/
inductive OpenContainer where
  | array (items : List Json)
  /-- An object that waits for the value of `name`. -/
  | object (members : List (Option String × Json)) (name : Option String)

/-- The place in a document that the next token has to fit. -/
inductive Reader where
  | value (around : List OpenContainer)
  /-- After the bracket that opens an array. -/
  | firstItem (around : List OpenContainer)
  | afterItem (items : List Json) (around : List OpenContainer)
  /-- After the brace that opens an object. -/
  | firstName (around : List OpenContainer)
  | nextName (members : List (Option String × Json)) (around : List OpenContainer)
  | colon (members : List (Option String × Json)) (name : Option String) (around : List OpenContainer)
  | afterMember (members : List (Option String × Json)) (around : List OpenContainer)
  | done (j : Json)

namespace Reader

/-- The place after a complete value. -/
def resume (j : Json) : List OpenContainer → Reader
  | [] => .done j
  | .array items :: around => .afterItem (j :: items) around
  | .object members name :: around => .afterMember ((name, j) :: members) around

/-- The first token of a value. -/
def enter (around : List OpenContainer) : Token → Option Reader
  | .null => some (resume .null around)
  | .bool b => some (resume (.bool b) around)
  | .number lexeme => some (resume (.number lexeme) around)
  | .text s => some (resume (.text s) around)
  | .openArray => some (.firstItem around)
  | .openObject => some (.firstName around)
  | _ => none

/-- One token, if it fits. -/
def step : Reader → Token → Option Reader
  | .value around, token => enter around token
  | .firstItem around, .closeArray => some (resume (.array []) around)
  | .firstItem around, token => enter (.array [] :: around) token
  | .afterItem items around, .comma => some (.value (.array items :: around))
  | .afterItem items around, .closeArray => some (resume (.array items.reverse) around)
  | .firstName around, .closeObject => some (resume (.object []) around)
  | .firstName around, .text name => some (.colon [] name around)
  | .nextName members around, .text name => some (.colon members name around)
  | .colon members name around, .colon => some (.value (.object members name :: around))
  | .afterMember members around, .comma => some (.nextName members around)
  | .afterMember members around, .closeObject => some (resume (.object members.reverse) around)
  | _, _ => none

/-- The value that a reader has completed. -/
def result? : Reader → Option Json
  | .done j => some j
  | _ => none

end Reader

/-- The value that a list of tokens spells. -/
def ofTokens? (tokens : List Token) : Option Json := do
  (← tokens.foldlM Reader.step (.value [])).result?

/-- The value that a text spells. -/
def parse? (s : String) : Option Json := do
  ofTokens? (← tokens? s)

end Treewalk.Json
