import ClassKit.Tool.Keys
import ClassKit.Tool.Jar
import ClassKit.Config.File

/-!
# A patch run

One run patches one JAR: it loads the configuration, obtains the login key (downloaded from a key
server, or read from the private key file, which is generated when missing), combines them into
the patch settings, reads the classes of the source JAR, patches them, and writes the output JAR.

A source JAR that does not exist is not a failure: the run logs it and does nothing else.
-/

namespace ClassKit

/-- What a run is asked to do. -/
structure RunOptions where
  src : String
  out : String
  config : String := "patcher.json"
  keyUrl : Option String := none
  privateKey : String := "login-private-key.der"
  /-- Whether to type-check the patched methods; the configuration must ask for it too. -/
  verify : Bool := true
  deriving DecidableEq, Repr

namespace RunOptions

/-- The log target of the run itself. -/
def target : String := "classpatch"

/-- Reads and parses the configuration file. -/
def loadConfig (path : String) : ToolM Config := do
  ToolM.ofExcept .json (Config.parse (← ToolM.readText path))

/-- Runs the patch, fetching over `fetch` and generating keys from `random`. -/
def run (fetch : Fetch) (random : Random) (options : RunOptions) : ToolM Unit := do
  if !(← ToolM.pathExists options.src) then
    ToolM.log .error target s!"Could not find src jar {options.src}"
    return
  let config ← loadConfig options.config
  let publicKey ← match options.keyUrl with
    | some url => Keys.download fetch url
    | none => Keys.loadOrGenerate random options.privateKey
  let settings ← ToolM.ofExcept .patch (config.toSettings publicKey)
  let settings := { settings with verify := settings.verify && options.verify }
  let classFiles ← Jar.readClasses options.src
  let (patched, _) ← ToolM.ofLog .patch (patch settings classFiles)
  Jar.writeClasses options.out patched

end RunOptions

end ClassKit
