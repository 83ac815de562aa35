import ClassKit.Tool.Failure
import ClassKit.Patch.Pipeline

/-!
# Reading and writing JARs

The classes of a JAR are the contents of its entries that are files with names ending in
`.class`, in archive order; other entries (manifests, resources, directories) are skipped. Every
entry is opened, skipped or not, so an entry that cannot be opened fails the whole read.

Writing puts each patched class in a deflated entry named after the class.
-/

namespace ClassKit

namespace Jar

/-- The log target of archive handling. -/
def target : String := "classpatch::archive"

/-- The contents of every `.class` entry of an archive. -/
def readClassEntries (bytes : List UInt8) : ToolM (List (List UInt8)) := do
  let archive := bytes.toArray
  let entries ← ToolM.ofExcept .zip (ZipArchive.entries archive)
  entries.foldlM (fun classes entry => do
    let data ← ToolM.ofExcept .zip (ZipArchive.openEntry archive entry)
    if !entry.isFile || !entry.isClassFile then
      ToolM.log .debug target s!"Skipping {entry.nameText}"
      pure classes
    else
      let contents ← ToolM.ofExcept (fun err => .io (.invalidData err.message))
        (ZipArchive.contents entry data)
      pure (classes ++ [contents])) []

/-- The contents of every `.class` entry of the archive at `path`. A directory opens, but
reading it fails inside the archive reader. -/
def readClasses (path : String) : ToolM (List (List UInt8)) := do
  ToolM.log .info target s!"Reading {path}"
  match ← ToolM.openPath path with
  | .file bytes => readClassEntries bytes
  | .directory => throw (.zip (.io IoError.isDirectory.message))

/-- The archive of the classes, each deflated under its entry name; a repeated name stops the
writing, leaving the archive of the classes before it. -/
def writeClassEntries (classes : List PatchedClass) : ToolM (List UInt8 × Option ZipError) := do
  let files := classes.map fun cls => { name := cls.entryName, contents := cls.bytes : ZipFileSpec }
  let (kept, err) := ZipArchive.accepted files
  let attempted := if err.isSome then files.take (kept.length + 1) else kept
  for file in attempted do
    ToolM.log .debug target s!"Writing {file.name}"
  pure (ZipArchive.build kept, err)

/-- Writes the classes to an archive at `path`. -/
def writeClasses (path : String) (classes : List PatchedClass) : ToolM Unit := do
  ToolM.log .info target s!"Writing {classes.length} classes to {path}"
  ToolM.writeFile path []
  let (bytes, err) ← writeClassEntries classes
  ToolM.writeFile path bytes
  if let some err := err then throw (.zip err)

end Jar

end ClassKit
