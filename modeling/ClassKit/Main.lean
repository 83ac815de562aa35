import ClassKit.Cli.Program

/-!
# The executable

The program itself is `Outcome.invoke`, a function of the arguments, the log filter and the
workspace. The executable reads into a workspace the files and directories the command line
names (and the directories above them), invokes the program, writes back the files it created or
changed, and prints what it printed.
-/

namespace ClassKit

namespace Executable

/-- What is at a path on disk: a file, a directory (anything there that does not read as a
file), or nothing. -/
def probe (path : String) : IO (Option WorkNode) := do
  try
    return some (.file (← IO.FS.readBinFile path).toList)
  catch err =>
    match err with
    | .noFileOrDirectory .. => return none
    | _ => return some .directory

/-- Adds what is on disk at a path, and at the directories above it, to a workspace. -/
def load (workspace : Workspace) (text : String) : IO Workspace := do
  let some path := Workspace.resolve text | return workspace
  let mut workspace := workspace
  for length in List.range path.length do
    let prefix_ := path.take (length + 1)
    match ← probe (Workspace.render prefix_) with
    | some (.file contents) => workspace := workspace.setFile prefix_ contents
    | some .directory => workspace := workspace.addDirectory prefix_
    | none => pure ()
  return workspace

/-- The paths a run may read or write. -/
def paths (options : RunOptions) : List String :=
  [options.src, options.out, options.config, options.privateKey]

end Executable

end ClassKit

open ClassKit in
/-- Runs `classpatch` on the files on disk. -/
def main (arguments : List String) : IO UInt32 := do
  let logSpec ← IO.getEnv "RUST_LOG"
  let before ← match parseArguments arguments with
    | .run options => (Executable.paths options).foldlM Executable.load {}
    | _ => pure {}
  let seed ← IO.monoNanosNow
  let outcome := Outcome.invoke Fetch.unreachable ⟨seed.toUInt64⟩ arguments logSpec before
  for (path, contents) in before.changes outcome.workspace do
    IO.FS.writeBinFile path (ByteArray.mk contents.toArray)
  IO.print outcome.stdout
  IO.eprint outcome.stderr
  return outcome.status.toUInt32
