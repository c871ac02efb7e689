/-!
# Decimal numbers

`natOfDigits?` reads a non-empty list of ASCII digits, however long and with any number of leading zeros.
-/

namespace Treewalk.Text

/-- The number that a list of digits writes, after the number that the digits before them write. -/
def natOfDigits (n : Nat) (digits : List Char) : Nat :=
  digits.foldl (fun n d => 10 * n + (d.toNat - '0'.toNat)) n

/-- The number that the characters write, if they are digits and there is at least one. -/
def natOfDigits? (cs : List Char) : Option Nat :=
  if cs ≠ [] ∧ cs.all Char.isDigit then some (natOfDigits 0 cs) else none

end Treewalk.Text
