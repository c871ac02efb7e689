/-!
# Files

What can be read is a function from paths to contents (`Files`). `Directory.read` is such a function for a working
directory with known files and nothing else: a path is walked name by name (`Directory.next`), where an empty name and
a dot stay in the same directory, two dots go to the one around it, and only a directory can be walked on from. So a
slash behind the name of a file makes the path lead nowhere. Of what lies outside the working directory only the
directories around it are known, and those without their contents.
-/

namespace Treewalk

/-- Why a file cannot be read. -/
inductive ReadError where
  | notFound
  | permissionDenied
  | notDirectory
  | isDirectory
  | nameTooLong
  | notText
  | other (reason : String)
  deriving DecidableEq, Repr

/-- The wording of a read error. -/
def ReadError.message : ReadError → String
  | .notFound => "No such file or directory (os error 2)"
  | .permissionDenied => "Permission denied (os error 13)"
  | .notDirectory => "Not a directory (os error 20)"
  | .isDirectory => "Is a directory (os error 21)"
  | .nameTooLong => "File name too long (os error 36)"
  | .notText => "stream did not contain valid UTF-8"
  | .other reason => reason

/-- How to read the file at a path: its contents, or why it cannot be read. -/
abbrev Files : Type := String → Except ReadError String

/-! ## Paths -/

/-- The texts before, between and after the slashes of a path. -/
def segments : List Char → List (List Char)
  | [] => [[]]
  | c :: cs =>
    if c = '/' then [] :: segments cs
    else
      match segments cs with
      | [] => [[c]]
      | segment :: rest => (c :: segment) :: rest

/-- A path has at least one segment, which may be empty. -/
theorem segments_ne_nil (path : List Char) : segments path ≠ [] := by
  cases path with
  | nil => exact List.cons_ne_nil _ _
  | cons c cs =>
    rw [segments]
    by_cases h : c = '/'
    · rw [if_pos h]
      exact List.cons_ne_nil _ _
    · rw [if_neg h]
      cases segments cs <;> exact List.cons_ne_nil _ _

/-- The names in a path. -/
def pathNames (path : String) : List String :=
  (segments path.toList).map String.ofList

/-- A name that leads from a directory to itself. -/
def staysHere (name : String) : Bool :=
  name = "" || name = "."

/-- The number of bytes that a name may have. -/
def nameLimit : Nat := 255

/-- The number of bytes that a path may have. -/
def pathLimit : Nat := 4095

/-! ## Directories -/

/-- The files under a working directory, each with the names that lead to it. -/
abbrev Directory : Type := List (List String × String)

/-- Where a path has led to. -/
inductive Place where
  /-- The directory that the names lead to. -/
  | inside (names : List String)
  /-- A directory around the working directory. -/
  | outside
  | file (contents : String)
  deriving DecidableEq, Repr

namespace Directory

/-- The directory that holds the given files, by their paths. -/
def ofList (files : List (String × String)) : Directory :=
  files.map fun (path, contents) => ((pathNames path).filter (!staysHere ·), contents)

/-- The file or the directory that the names lead to. -/
def find? (dir : Directory) (names : List String) : Option Place :=
  match dir.lookup names with
  | some contents => some (.file contents)
  | none => if dir.any (names.isPrefixOf ·.1) then some (.inside names) else none

/-- One name further on a path. -/
def next (dir : Directory) (place : Place) (name : String) : Except ReadError Place :=
  match place with
  | .file _ => .error .notDirectory
  | .outside =>
    if staysHere name || name = ".." then .ok .outside
    else if nameLimit < name.utf8ByteSize then .error .nameTooLong
    else .error .notFound
  | .inside names =>
    if staysHere name then .ok place
    else if name = ".." then .ok (if names.isEmpty then .outside else .inside names.dropLast)
    else if nameLimit < name.utf8ByteSize then .error .nameTooLong
    else
      match dir.find? (names ++ [name]) with
      | some place => .ok place
      | none => .error .notFound

/-- Where a path starts: a leading slash leaves the working directory. -/
def start (path : String) : Place :=
  if path.toList.head? = some '/' then .outside else .inside []

/-- Reads the file at a path. -/
def read (dir : Directory) : Files := fun path =>
  if path = "" then .error .notFound
  else if pathLimit < path.utf8ByteSize then .error .nameTooLong
  else do
    match ← (pathNames path).foldlM dir.next (start path) with
    | .file contents => .ok contents
    | .inside _ | .outside => .error .isDirectory

end Directory

end Treewalk
