/-!
# Workspaces

The program reads and writes files by path. A workspace is the directory tree it works in, held
in memory: the files with their contents, and the directories. Each is named by its path from
the working directory, as a list of components.

A path written as text is split at slashes. Empty components and `.` name nothing, and `..` goes
up one level; a path that starts with a slash, or climbs above the working directory, names
nothing in the workspace. Looking a path up walks its components: each one before the last must
be a directory.
-/

namespace ClassKit

/-- Why a file could not be read or written, with the system's wording. -/
inductive IoError where
  | notFound
  | isDirectory
  | notDirectory
  | invalidData (message : String)
  deriving DecidableEq, Repr

namespace IoError

def message : IoError → String
  | notFound => "No such file or directory (os error 2)"
  | isDirectory => "Is a directory (os error 21)"
  | notDirectory => "Not a directory (os error 20)"
  | invalidData message => message

end IoError

/-- What a path names. -/
inductive WorkNode where
  | file (contents : List UInt8)
  | directory
  deriving DecidableEq, Repr

/-- Files and directories by path; the working directory itself is always there. -/
structure Workspace where
  files : List (List String × List UInt8) := []
  directories : List (List String) := []
  deriving Repr, Inhabited

namespace Workspace

/-- The components of a path written as text, if it names something inside the workspace. -/
def resolve (text : String) : Option (List String) :=
  if text.startsWith "/" then none
  else
    (text.splitOn "/").foldl (fun stack part => do
      let stack ← stack
      match part with
      | "" | "." => some stack
      | ".." => if stack.isEmpty then none else some stack.dropLast
      | name => some (stack ++ [name])) (some [])

/-- The path as text, components joined by slashes. -/
def render (path : List String) : String := "/".intercalate path

/-- What is at a path, ignoring the directories on the way. -/
def node? (workspace : Workspace) (path : List String) : Option WorkNode :=
  if path.isEmpty || workspace.directories.contains path then some .directory
  else (workspace.files.lookup path).map .file

/-- What a path names: every component before the last must be a directory. -/
def lookup (workspace : Workspace) (path : List String) : Except IoError WorkNode :=
  let check (sofar : Except IoError Unit) (length : Nat) : Except IoError Unit := do
    sofar
    match workspace.node? (path.take length) with
    | some .directory => pure ()
    | some (.file _) => throw .notDirectory
    | none => throw .notFound
  match (List.range path.length).foldl check (.ok ()) with
  | .error err => .error err
  | .ok () =>
    match workspace.node? path with
    | some found => .ok found
    | none => .error .notFound

/-- What a path written as text names. -/
def open? (workspace : Workspace) (text : String) : Except IoError WorkNode :=
  match resolve text with
  | some path => workspace.lookup path
  | none => .error .notFound

/-- Whether a path names a file or a directory. -/
def pathExists (workspace : Workspace) (text : String) : Bool :=
  match workspace.open? text with
  | .ok _ => true
  | .error _ => false

/-- The contents of the file at a path. -/
def read (workspace : Workspace) (text : String) : Except IoError (List UInt8) :=
  match workspace.open? text with
  | .ok (.file contents) => .ok contents
  | .ok .directory => .error .isDirectory
  | .error err => .error err

/-- The contents of the file at a path, as UTF-8 text. -/
def readText (workspace : Workspace) (text : String) : Except IoError String := do
  let bytes ← workspace.read text
  match String.fromUTF8? (ByteArray.mk bytes.toArray) with
  | some decoded => pure decoded
  | none => throw (.invalidData "stream did not contain valid UTF-8")

/-- The workspace with the file at `path` holding `contents`, created or replaced. -/
def setFile (workspace : Workspace) (path : List String) (contents : List UInt8) : Workspace :=
  if (workspace.files.lookup path).isSome then
    { workspace with files := workspace.files.map fun (name, old) =>
        if name == path then (name, contents) else (name, old) }
  else { workspace with files := workspace.files ++ [(path, contents)] }

/-- Writes a file: its directory must exist, and the path must not be a directory. -/
def write (workspace : Workspace) (text : String) (contents : List UInt8) :
    Except IoError Workspace := do
  let some path := resolve text | throw .notFound
  if path.isEmpty then throw .isDirectory
  match ← workspace.lookup path.dropLast with
  | .file _ => throw .notDirectory
  | .directory =>
    match workspace.node? path with
    | some .directory => throw .isDirectory
    | _ => pure (workspace.setFile path contents)

/-- The workspace with a directory and the directories above it. -/
def addDirectory (workspace : Workspace) (path : List String) : Workspace :=
  (List.range path.length).foldl (fun workspace length =>
    let prefix_ := path.take (length + 1)
    if workspace.directories.contains prefix_ then workspace
    else { workspace with directories := workspace.directories ++ [prefix_] }) workspace

/-- A workspace holding the given files, with the directories they are in. -/
def ofFiles (entries : List (String × List UInt8)) : Workspace :=
  entries.foldl (fun workspace (text, contents) =>
    match resolve text with
    | some path => (workspace.addDirectory path.dropLast).setFile path contents
    | none => workspace) {}

/-- The files that are new or changed since `before`, by path. -/
def changes (before after : Workspace) : List (String × List UInt8) :=
  after.files.filterMap fun (path, contents) =>
    if before.files.lookup path == some contents then none else some (render path, contents)

end Workspace

end ClassKit
