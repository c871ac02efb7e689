import Treewalk.CommandLine

/-!
# The program

Reads the file that the command line names and writes what `CommandLine.respond` answers.
-/

namespace Treewalk

/-- Fuel for an evaluation that is bounded by time and memory alone. -/
def ampleFuel : Nat := 0x4000000000000000

/-- Why a file cannot be read. -/
def readError : IO.Error → ReadError
  | .noFileOrDirectory _ _ _ => .notFound
  | .permissionDenied _ _ _ => .permissionDenied
  | .inappropriateType _ 20 _ => .notDirectory
  | .inappropriateType _ 21 _ => .isDirectory
  | .invalidArgument _ 36 _ => .nameTooLong
  | e => .other (toString e)

/-- The contents of a file, or why it cannot be read. -/
def readContents (path : String) : IO (Except ReadError String) := do
  try
    match String.fromUTF8? (← IO.FS.readBinFile path) with
    | some contents => return .ok contents
    | none => return .error .notText
  catch e => return .error (readError e)

end Treewalk

open Treewalk in
/-- The program. -/
def main (args : List String) : IO UInt32 := do
  let contents ← match CommandLine.inputPath? args with
    | some path => readContents path
    | none => pure (.error .notFound)
  let depth ← IO.getEnv Config.depthVariable
  let strategy ← IO.getEnv Config.strategyVariable
  let vars := fun name =>
    if name = Config.depthVariable then depth
    else if name = Config.strategyVariable then strategy
    else none
  match CommandLine.respond ampleFuel vars (fun _ => contents) args with
  | some output =>
    IO.print output.stdout
    IO.eprint output.stderr
    return output.code.toUInt32
  | none => return 1
