import Treewalk.Text.Blank
import Treewalk.Text.Decimal

/-!
# Settings of an evaluation

A depth limit, if any, and the strategy for lazy bindings. Both can be given as texts: a depth is a positive number
below 2^64 (`parseDepth?`), a strategy one of four words (`Strategy.parse?`), each with blanks around it.
`Config.ofVariables` takes them from two variables and reports the first text that is wrong.
-/

namespace Treewalk

/-- How a lazy binding is looked up. -/
inductive Strategy where
  /-- The expression is evaluated on every lookup. -/
  | byName
  /-- The expression is evaluated on the first lookup and its value kept. -/
  | byNeed
  deriving DecidableEq, Repr

/-- The word for a strategy. -/
def Strategy.word : Strategy → String
  | .byName => "name"
  | .byNeed => "need"

/-- The strategy that a text names, in upper or lower case. -/
def Strategy.parse? (s : String) : Option Strategy :=
  match String.ofList ((Text.trim s.toList).map Char.toLower) with
  | "name" | "by-name" => some .byName
  | "need" | "by-need" => some .byNeed
  | _ => none

/-- Settings of an evaluation. -/
structure Config where
  /-- The number of frames that may be open at once. -/
  maxDepth : Option Nat := none
  strategy : Strategy := .byName
  deriving DecidableEq, Repr

/-- The depth limit that a text gives: digits, after at most one plus sign. -/
def parseDepth? (s : String) : Option Nat := do
  let n ← Text.natOfDigits? (match Text.trim s.toList with
    | '+' :: digits => digits
    | digits => digits)
  if 0 < n ∧ n < 0x10000000000000000 then some n else none

/-- A text that gives no setting. -/
inductive ConfigError where
  | depth (text : String)
  | strategy (text : String)
  deriving DecidableEq, Repr

namespace Config

/-- The variable that holds the depth limit. -/
def depthVariable : String := "MINICAML_MAX_DEPTH"

/-- The variable that holds the strategy. -/
def strategyVariable : String := "MINICAML_LAZY"

/-- The setting that a variable gives. An unset or blank variable gives none, another text has to be readable. -/
def setting (read : String → Option α) (wrong : String → ConfigError) : Option String → Except ConfigError (Option α)
  | none => .ok none
  | some text =>
    if Text.isAllBlank text then .ok none
    else
      match read text with
      | some a => .ok (some a)
      | none => .error (wrong text)

/-- The settings that variables give. -/
def ofVariables (vars : String → Option String) : Except ConfigError Config := do
  let depth ← setting parseDepth? .depth (vars depthVariable)
  let strategy ← setting Strategy.parse? .strategy (vars strategyVariable)
  return { maxDepth := depth, strategy := strategy.getD .byName }

end Config

/-- The wording of a wrong setting. -/
def ConfigError.message : ConfigError → String
  | .depth text => "invalid value for " ++ Config.depthVariable ++ ": `" ++ text ++ "` is not a positive integer"
  | .strategy text =>
    "invalid value for " ++ Config.strategyVariable ++ ": `" ++ text ++ "` (expected `name` or `need`)"

end Treewalk
