import Treewalk.Json.Basic

/-!
# The tokens of a JSON text

A text is cut into tokens by an automaton that looks at one character at a time. `step` is its transition and
gives the tokens that the character completes; `scan` runs it over a list of characters, so the tokens of a text
are determined by those of any initial part and the state it ends in.

Blanks are the space, the tab, the line feed and the carriage return. Inside a text the escapes are collected as
16-bit code units, and `decodeUnits` joins the pairs of surrogates among them.
-/

namespace Treewalk.Json

/-- The smallest parts of a JSON text. -/
inductive Token where
  | openObject
  | closeObject
  | openArray
  | closeArray
  | comma
  | colon
  | null
  | bool (b : Bool)
  | number (lexeme : String)
  | text (s : Option String)
  deriving DecidableEq

/-- A blank between tokens. -/
def isSpace (c : Char) : Bool :=
  c == ' ' || c == '\t' || c == '\n' || c == '\r'

/-! ## Numbers -/

/-- The part of a number that the last character read belongs to. -/
inductive NumberPart where
  | minus
  /-- A leading zero, which no digit follows. -/
  | zero
  | whole
  | point
  | fraction
  | exponent
  | exponentSign
  | power
  deriving DecidableEq

namespace NumberPart

/-- The part that the character `c` leads to, if the number goes on with it. -/
def next? (part : NumberPart) (c : Char) : Option NumberPart :=
  match part with
  | .minus => if c == '0' then some .zero else if c.isDigit then some .whole else none
  | .zero => if c == '.' then some .point else if c == 'e' || c == 'E' then some .exponent else none
  | .whole =>
    if c.isDigit then some .whole
    else if c == '.' then some .point
    else if c == 'e' || c == 'E' then some .exponent
    else none
  | .point => if c.isDigit then some .fraction else none
  | .fraction => if c.isDigit then some .fraction else if c == 'e' || c == 'E' then some .exponent else none
  | .exponent =>
    if c == '+' || c == '-' then some .exponentSign else if c.isDigit then some .power else none
  | .exponentSign => if c.isDigit then some .power else none
  | .power => if c.isDigit then some .power else none

/-- Whether a number may end here. -/
def isComplete : NumberPart → Bool
  | .zero | .whole | .fraction | .power => true
  | .minus | .point | .exponent | .exponentSign => false

end NumberPart

/-! ## Texts -/

/-- What a text is made of: characters, and the code units that its escapes name. -/
inductive TextUnit where
  | char (c : Char)
  | code (n : Nat)
  deriving DecidableEq

/-- The characters of a list of units, last unit first, before those of `later`; there are none if a surrogate stands
without its partner. -/
def decodeUnits : List TextUnit → List Char → Option (List Char)
  | [], later => some later
  | .char c :: units, later => decodeUnits units (c :: later)
  | .code low :: units, later =>
    if low < 0xd800 ∨ 0xdfff < low then decodeUnits units (Char.ofNat low :: later)
    else
      match units with
      | .code high :: units =>
        if 0xdc00 ≤ low ∧ 0xd800 ≤ high ∧ high < 0xdc00 then
          decodeUnits units (Char.ofNat (0x10000 + (high - 0xd800) * 0x400 + (low - 0xdc00)) :: later)
        else none
      | _ => none

/-- The character that a one-letter escape stands for. -/
def shortEscape? : Char → Option Char
  | '"' => some '"'
  | '\\' => some '\\'
  | '/' => some '/'
  | 'b' => some '\x08'
  | 'f' => some '\x0c'
  | 'n' => some '\n'
  | 'r' => some '\r'
  | 't' => some '\t'
  | _ => none

/-- The value of a hexadecimal digit. -/
def hexValue? (c : Char) : Option Nat :=
  if '0' ≤ c ∧ c ≤ '9' then some (c.toNat - '0'.toNat)
  else if 'a' ≤ c ∧ c ≤ 'f' then some (c.toNat - 'a'.toNat + 10)
  else if 'A' ≤ c ∧ c ≤ 'F' then some (c.toNat - 'A'.toNat + 10)
  else none

/-! ## The automaton -/

/-- What the scanner is in the middle of. What a token has collected so far stands last character first. -/
inductive Scan where
  | between
  /-- Inside a word, of which `rest` is still to come. -/
  | word (rest : List Char) (token : Token)
  | number (part : NumberPart) (seen : List Char)
  | text (seen : List TextUnit)
  /-- After a backslash. -/
  | escape (seen : List TextUnit)
  /-- Inside a code unit with `missing + 1` digits still to come. -/
  | code (seen : List TextUnit) (missing : Nat) (value : Nat)
  deriving DecidableEq

namespace Scan

/-- The first character of a token, or a blank. -/
def start (c : Char) : Option (List Token × Scan) :=
  if isSpace c then some ([], .between)
  else if c.isDigit then some ([], .number (if c == '0' then .zero else .whole) [c])
  else
    match c with
    | '\x7b' => some ([.openObject], .between)
    | '\x7d' => some ([.closeObject], .between)
    | '[' => some ([.openArray], .between)
    | ']' => some ([.closeArray], .between)
    | ',' => some ([.comma], .between)
    | ':' => some ([.colon], .between)
    | '"' => some ([], .text [])
    | '-' => some ([], .number .minus [c])
    | 't' => some ([], .word ['r', 'u', 'e'] (.bool true))
    | 'f' => some ([], .word ['a', 'l', 's', 'e'] (.bool false))
    | 'n' => some ([], .word ['u', 'l', 'l'] .null)
    | _ => none

/-- One character: the tokens it completes and the state after it. -/
def step (state : Scan) (c : Char) : Option (List Token × Scan) :=
  match state with
  | .between => start c
  | .word [] token => (start c).map fun (tokens, next) => (token :: tokens, next)
  | .word (d :: rest) token => if c = d then some ([], .word rest token) else none
  | .number part seen =>
    match part.next? c with
    | some part => some ([], .number part (c :: seen))
    | none =>
      if part.isComplete then
        (start c).map fun (tokens, next) => (.number (String.ofList seen.reverse) :: tokens, next)
      else none
  | .text seen =>
    match c with
    | '"' => some ([.text ((decodeUnits seen []).map String.ofList)], .between)
    | '\\' => some ([], .escape seen)
    | c => if c.toNat < 0x20 then none else some ([], .text (.char c :: seen))
  | .escape seen =>
    if c = 'u' then some ([], .code seen 3 0)
    else (shortEscape? c).map fun d => ([], .text (.char d :: seen))
  | .code seen missing value =>
    (hexValue? c).map fun digit =>
      match missing with
      | 0 => ([], .text (.code (value * 16 + digit) :: seen))
      | missing + 1 => ([], .code seen missing (value * 16 + digit))

/-- The tokens that the end of the text completes. -/
def finish : Scan → Option (List Token)
  | .between => some []
  | .word [] token => some [token]
  | .number part seen => if part.isComplete then some [.number (String.ofList seen.reverse)] else none
  | _ => none

end Scan

/-- The tokens of the characters from the given state on, after those in `done`, which stand last token first. -/
def scan : List Char → Scan → List Token → Option (List Token)
  | [], state, done => state.finish.map fun tokens => done.reverse ++ tokens
  | c :: cs, state, done =>
    match state.step c with
    | none => none
    | some (tokens, state) => scan cs state (tokens.reverse ++ done)

/-- The tokens of a text. -/
def tokens? (s : String) : Option (List Token) :=
  scan s.toList .between []

end Treewalk.Json
