import Nullness.Text.Basic

/-!
# Files

The program reads files by name.  `Files` is what it can find: for each name, a
content or the reason why there is none.  A `Directory` is a tree of files in
memory, which answers for names as a file system does.
-/

namespace Nullness

/-- Why a file cannot be read. -/
inductive FileError where
  /-- There is nothing under this name. -/
  | missing
  /-- The name belongs to a directory. -/
  | isDirectory
  /-- A part of the name, before its end, belongs to a file. -/
  | notDirectory
  /-- Reading is not allowed. -/
  | denied
  deriving DecidableEq, Repr

/-- The message about a file that cannot be read. -/
def FileError.message (path : Text) : FileError → Text
  | .missing => text "open " ++ path ++ text ": no such file or directory"
  | .isDirectory => text "read " ++ path ++ text ": is a directory"
  | .notDirectory => text "open " ++ path ++ text ": not a directory"
  | .denied => text "open " ++ path ++ text ": permission denied"

/-- What is found under each name. -/
abbrev Files := Text → Except FileError Text

/-- Whether there is something under a name. -/
def Files.has (files : Files) (path : Text) : Bool :=
  match files path with
  | .ok _ | .error .isDirectory | .error .denied => true
  | .error .missing | .error .notDirectory => false

/-- A directory: the files below it, each with the names that lead to it. -/
structure Directory where
  files : List (List Text × Text)

namespace Directory

/-- The parts of a path. -/
def parts (path : Text) : List Text := Text.splitOn (byte '/') path

/-- Whether a part of a path stays where it is. -/
def isHere (part : Text) : Bool := part.isEmpty || part = text "."

/-- The directory that holds the given files. -/
def ofFiles (files : List (Text × Text)) : Directory :=
  ⟨files.map fun (path, content) =>
    ((parts path).filter fun part => !isHere part, content)⟩

/-- The content of the file that the names lead to. -/
def file? (d : Directory) (names : List Text) : Option Text :=
  d.files.lookup names

/-- Whether the names lead to a directory. -/
def isDirectory (d : Directory) (names : List Text) : Bool :=
  names.isEmpty || d.files.any fun (path, _) =>
    names.isPrefixOf path && names ≠ path

/-- Where a path leads, step by step: the names from the directory down, or how
far above the directory the path has left it.  Nothing is known up there but the
directories themselves. -/
inductive Place where
  | below (names : List Text)
  | above (levels : Nat)

/-- Takes one step of a path. -/
def step (d : Directory) (place : Place) (part : Text) :
    Except FileError Place :=
  match place with
  | .above levels =>
    if isHere part then .ok place
    else if part = text ".." then .ok (.above (levels + 1))
    else .error .missing
  | .below names =>
    if !d.isDirectory names then .error .notDirectory
    else if isHere part then .ok place
    else if part = text ".." then
      .ok (if names.isEmpty then .above 1 else .below names.dropLast)
    else
      let names := names ++ [part]
      if d.isDirectory names || (d.file? names).isSome then .ok (.below names)
      else .error .missing

/-- Where a path starts.  One that starts with a slash starts outside of the
directory. -/
def origin (path : Text) : Place :=
  if path.head? = some (byte '/') then .above 0 else .below []

/-- The content of the file at a path. -/
def read (d : Directory) : Files := fun path =>
  if path.isEmpty then .error .missing
  else do
    let place ← (parts path).foldlM d.step (origin path)
    match place with
    | .above _ => .error .isDirectory
    | .below names =>
      match d.file? names with
      | some content => .ok content
      | none => .error .isDirectory

end Directory
end Nullness
