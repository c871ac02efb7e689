import Treewalk.Text.Graphic

/-!
# Quoted text

A string between double quotes in which every character can be seen: `quote`. The quote, the backslash and five
control characters have a short form, any other character that is not graphic is written by its code point
(`\u` and the hexadecimal number in braces), and all else stands for itself.
-/

namespace Treewalk.Text

/-- The lower-case hexadecimal digits of a number, without leading zeros. -/
def hexDigits (n : Nat) : String :=
  String.ofList (Nat.toDigits 16 n)

/-- The code point of a character, as it stands inside quoted text. -/
def escapeCodePoint (c : Char) : String :=
  "\\u\x7b" ++ hexDigits c.toNat ++ "\x7d"

/-- A character as it stands inside quoted text. -/
def escapeChar (c : Char) : String :=
  match c with
  | '"' => "\\\""
  | '\\' => "\\\\"
  | '\n' => "\\n"
  | '\r' => "\\r"
  | '\t' => "\\t"
  | '\x00' => "\\0"
  | c => if isGraphic c then c.toString else escapeCodePoint c

/-- A string between double quotes. -/
def quote (s : String) : String :=
  "\"" ++ String.join (s.toList.map escapeChar) ++ "\""

end Treewalk.Text
