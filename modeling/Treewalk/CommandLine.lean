import Treewalk.Eval.Basic
import Treewalk.Expr.Codec
import Treewalk.Files

/-!
# The command line

`respond` is the whole program as a function: from the words of the command line, the variables of the environment and
the files, to what is written and the exit code. An evaluation that succeeds ends in code 0, a fatal failure in code 2,
and everything else that goes wrong in code 1.
-/

namespace Treewalk.CommandLine

/-! ## The words after `run` -/

/-- Words after `run` that make no sense. -/
inductive UsageError where
  | invalidDepth (text : String)
  | unknownOption (word : String)
  | unexpectedArgument (word : String)
  | missingPath
  deriving DecidableEq, Repr

/-- The wording of a usage error. -/
def UsageError.message : UsageError → String
  | .invalidDepth text => "invalid --max-depth value `" ++ text ++ "`"
  | .unknownOption word => "unknown option `" ++ word ++ "`"
  | .unexpectedArgument word => "unexpected argument `" ++ word ++ "`"
  | .missingPath => "missing file path"

/-- What the words after `run` ask for. -/
structure RunOptions where
  path : String
  maxDepth : Option Nat
  byNeed : Bool
  deriving DecidableEq, Repr

/-- What the words read so far ask for. -/
structure WordsRead where
  path : Option String := none
  maxDepth : Option Nat := none
  byNeed : Bool := false
  deriving DecidableEq, Repr

/-- How a word that gives the depth limit begins. -/
def depthFlag : List Char :=
  ['-', '-', 'm', 'a', 'x', '-', 'd', 'e', 'p', 't', 'h', '=']

/-- One more word. -/
def WordsRead.word (read : WordsRead) (word : String) : Except UsageError WordsRead :=
  match depthFlag.isPrefixOf? word.toList with
  | some text =>
    match parseDepth? (String.ofList text) with
    | some depth => .ok { read with maxDepth := some depth }
    | none => .error (.invalidDepth (String.ofList text))
  | none =>
    if word = "--by-need" then .ok { read with byNeed := true }
    else if word.toList.head? = some '-' then .error (.unknownOption word)
    else
      match read.path with
      | none => .ok { read with path := some word }
      | some _ => .error (.unexpectedArgument word)

namespace RunOptions

/-- The options that the words after `run` give. -/
def parse (words : List String) : Except UsageError RunOptions := do
  let read ← words.foldlM WordsRead.word {}
  match read.path with
  | some path => .ok ⟨path, read.maxDepth, read.byNeed⟩
  | none => .error .missingPath

/-- The settings of the run, where options come before variables. -/
def config (options : RunOptions) (base : Config) : Config where
  maxDepth := options.maxDepth.or base.maxDepth
  strategy := if options.byNeed then .byNeed else base.strategy

end RunOptions

/-! ## Loading -/

/-- What keeps a file from being loaded. -/
inductive LoadError where
  | read (path : String) (reason : ReadError)
  | decode (path : String) (reason : String)
  deriving DecidableEq, Repr

/-- The wording of a load error. -/
def LoadError.message : LoadError → String
  | .read path reason => "cannot read '" ++ path ++ "': " ++ reason.message ++ "\n"
  | .decode path reason => "'" ++ path ++ "' is not a valid expression tree: " ++ reason

/-- The expression in a file. What is said of contents that are refused, up to the end of the line, is left to
`explain`. -/
def load (files : Files) (explain : String → String) (path : String) : Except LoadError Expr :=
  match files path with
  | .error reason => .error (.read path reason)
  | .ok contents =>
    match Expr.decode? contents with
    | some e => .ok e
    | none => .error (.decode path (explain contents))

/-! ## The program -/

/-- What the program writes, and its exit code. -/
structure Output where
  stdout : String := ""
  stderr : String := ""
  code : Nat := 0
  deriving DecidableEq, Repr

/-- The lines that explain the commands. -/
def usageLines : List String :=
  ["minicaml - tree-walking evaluator for minicaml expression trees",
    "",
    "Usage: minicaml <command> [options]",
    "",
    "Commands:",
    "  run <file.json>      Evaluate an expression tree and print its value",
    "  print <file.json>    Print an expression tree in concrete syntax",
    "  help                 Show this message",
    "",
    "Run options:",
    "  --max-depth=<n>      Fail once evaluation nests deeper than n frames",
    "  --by-need            Memoize lazy bindings (default: call-by-name)",
    "",
    "Environment:",
    "  MINICAML_MAX_DEPTH   Default for --max-depth",
    "  MINICAML_LAZY        `name` or `need`",
    "  RUST_LOG             Enable tracing output (e.g. RUST_LOG=minicaml_eval=debug)"]

/-- The message that explains the commands. -/
def usage : String :=
  String.join (usageLines.map (· ++ "\n"))

/-- The output of a command that fails before an evaluation starts. -/
def Output.refusal (message : String) : Output where
  stderr := "error: " ++ message
  code := 1

/-- The output of an evaluation, if it ends. -/
def Output.ofOutcome : Outcome Value → Option Output
  | .done v _ => some { stdout := v.display ++ "\n" }
  | .failed failure _ => some { stderr := failure.report, code := if failure.isFatal then 2 else 1 }
  | .outOfFuel => none

/-- The command `run`. -/
def run (fuel : Nat) (vars : String → Option String) (files : Files) (explain : String → String)
    (words : List String) : Option Output :=
  match RunOptions.parse words with
  | .error e =>
    some (.refusal (e.message ++ "\nUsage: minicaml run <file.json> [--max-depth=N] [--by-need]\n"))
  | .ok options =>
    match Config.ofVariables vars with
    | .error e => some (.refusal (e.message ++ "\n"))
    | .ok base =>
      match load files explain options.path with
      | .error e => some (.refusal e.message)
      | .ok e => Output.ofOutcome (evalProgram (options.config base) fuel e {})

/-- The command `print`. -/
def print (files : Files) (explain : String → String) (path : String) : Output :=
  match load files explain path with
  | .error e => .refusal e.message
  | .ok e => { stdout := e.display ++ "\n" }

/-- The output of the program, if its evaluation ends within the fuel. -/
def respond (fuel : Nat) (vars : String → Option String) (files : Files) (words : List String)
    (explain : String → String := fun _ => "") : Option Output :=
  match words with
  | [] => some { stdout := usage }
  | "run" :: words => run fuel vars files explain words
  | ["print"] => some { stderr := "Usage: minicaml print <file.json>\n", code := 1 }
  | "print" :: path :: _ => some (print files explain path)
  | "help" :: _ | "--help" :: _ | "-h" :: _ => some { stdout := usage }
  | word :: _ => some { stdout := usage, stderr := "Unknown command: " ++ word ++ "\n\n", code := 1 }

/-- The file that the program reads. -/
def inputPath? : List String → Option String
  | "run" :: words => (RunOptions.parse words).toOption.map (·.path)
  | "print" :: path :: _ => some path
  | _ => none

end Treewalk.CommandLine
