import Treewalk.Json.Basic
import Treewalk.Text.Quoted

/-!
# Writing JSON

`compact` writes a value without blanks. In texts the quote, the backslash and five control characters have a
short escape, the other control characters are written by their code, and all else stands for itself.
-/

namespace Treewalk.Json

/-- The escape that names a code unit. -/
def codeEscape (n : Nat) : String :=
  let digits := Text.hexDigits n
  "\\u" ++ String.ofList (List.replicate (4 - digits.length) '0') ++ digits

/-- A character as it stands inside a text. -/
def escapeChar (c : Char) : String :=
  match c with
  | '"' => "\\\""
  | '\\' => "\\\\"
  | '\x08' => "\\b"
  | '\x0c' => "\\f"
  | '\n' => "\\n"
  | '\r' => "\\r"
  | '\t' => "\\t"
  | c => if c.toNat < 0x20 then codeEscape c.toNat else c.toString

/-- A string as a text. -/
def quote (s : String) : String :=
  "\"" ++ String.join (s.toList.map escapeChar) ++ "\""

/-- A text; one without a string is written as a surrogate alone. -/
def writeText : Option String → String
  | some s => quote s
  | none => "\"\\ud800\""

mutual

/-- A value without blanks. -/
def compact : Json → String
  | .null => "null"
  | .bool b => if b then "true" else "false"
  | .number lexeme => lexeme
  | .text s => writeText s
  | .array items => "[" ++ compactItems items ++ "]"
  | .object members => "\x7b" ++ compactMembers members ++ "\x7d"

/-- The items of an array, with commas between them. -/
def compactItems : List Json → String
  | [] => ""
  | [j] => compact j
  | j :: js => compact j ++ "," ++ compactItems js

/-- The members of an object, with commas between them. -/
def compactMembers : List (Option String × Json) → String
  | [] => ""
  | [(name, j)] => writeText name ++ ":" ++ compact j
  | (name, j) :: members => writeText name ++ ":" ++ compact j ++ "," ++ compactMembers members

end

end Treewalk.Json
