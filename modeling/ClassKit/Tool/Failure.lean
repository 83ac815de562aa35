import ClassKit.Tool.Workspace
import ClassKit.Zip.Archive
import ClassKit.Config.Reader
import ClassKit.Patch.Settings
import ClassKit.Log

/-!
# Failures of a run

A run of the tool stops at the first failure: a file that cannot be read or written, an archive
that cannot be read or written, a configuration that does not parse, a download that fails or
is refused, a key that cannot be read, or a patch that cannot be made. Each failure reads as one
line, and lists the messages of what caused it, outermost first.

A run works in `ToolM`: it reads and writes its workspace, logs, and may fail.
-/

namespace ClassKit

/-- Why a run of the tool stopped. -/
inductive Failure where
  | io (err : IoError)
  | zip (err : ZipError)
  | json (err : JsonError)
  | http (message : String)
  | httpStatus (code : Nat)
  | key (message : String)
  | patch (err : PatchError)

namespace Failure

/-- The kind of failure, by name. -/
def kind : Failure → String
  | io _ => "Io"
  | zip _ => "Zip"
  | json _ => "Json"
  | http _ => "Http"
  | httpStatus _ => "HttpStatus"
  | key _ => "Key"
  | patch _ => "Patch"

def message : Failure → String
  | io err => s!"I/O error: {err.message}"
  | zip err => s!"Archive error: {err.message}"
  | json err => s!"Invalid configuration: {err.text}"
  | http message => s!"HTTP error: {message}"
  | httpStatus code => s!"Http response code: {code}"
  | key message => s!"Invalid key: {message}"
  | patch err => err.message

/-- The messages of the causes, outermost first. -/
def causes : Failure → List String
  | io err => [err.message]
  | zip err => err.message :: err.causes
  | json err => [err.text]
  | http message => [message]
  | httpStatus _ => []
  | key _ => []
  | patch err => err.message :: match err with
    | .classError inner => [inner.message]
    | _ => []

end Failure

/-- A step of a run: it sees and changes the workspace, logs, and may fail. -/
abbrev ToolM := ExceptT Failure (StateT Workspace LogM)

namespace ToolM

/-- Runs a step on a workspace: the outcome and the workspace after it. -/
def run {α : Type} (action : ToolM α) (workspace : Workspace) : LogM (Except Failure α × Workspace) :=
  (ExceptT.run action).run workspace

/-- A result or failure that needs nothing else. -/
def ofExcept {ε α : Type} (wrap : ε → Failure) (result : Except ε α) : ToolM α :=
  match result with
  | .ok value => pure value
  | .error err => throw (wrap err)

/-- A logging step that may fail. -/
def ofLog {ε α : Type} (wrap : ε → Failure) (action : LogExcept ε α) : ToolM α := do
  let result ← (liftM (ExceptT.run action) : StateT Workspace LogM (Except ε α))
  ofExcept wrap result

/-- Logs a record. -/
def log (level : Level) (target message : String) : ToolM Unit :=
  (liftM (emit level target message) : StateT Workspace LogM Unit)

/-- Whether a path names a file or directory. -/
def pathExists (path : String) : ToolM Bool := do
  return (← getThe Workspace).pathExists path

/-- What a path names. -/
def openPath (path : String) : ToolM WorkNode := do
  ofExcept .io ((← getThe Workspace).open? path)

/-- The contents of a file. -/
def readFile (path : String) : ToolM (List UInt8) := do
  ofExcept .io ((← getThe Workspace).read path)

/-- The contents of a file as text. -/
def readText (path : String) : ToolM String := do
  ofExcept .io ((← getThe Workspace).readText path)

/-- Writes a file, creating or replacing it. -/
def writeFile (path : String) (contents : List UInt8) : ToolM Unit := do
  set (← ofExcept .io ((← getThe Workspace).write path contents))

end ToolM

end ClassKit
