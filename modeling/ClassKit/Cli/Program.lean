import ClassKit.Cli.Args
import ClassKit.Cli.LogFilter

/-!
# The program

One invocation of `classpatch`: the log filter comes from the environment (`info` when none is
set) and its warnings are printed first; then the command line is read. Help and version go to
standard output with status 0, a refused command line to standard error with status 2.
Otherwise the patch runs; its log records pass through the filter to standard error, and a
failure is logged as an error of the target `classpatch` and gives status 1.
-/

namespace ClassKit

/-- What an invocation leaves behind: its exit status, what it printed, and the files. -/
structure Outcome where
  status : Nat
  stdout : String
  stderr : String
  workspace : Workspace

namespace Outcome

/-- Runs `classpatch` with the given arguments and log filter specification on a workspace,
fetching over `fetch` and generating keys from `random`. -/
def invoke (fetch : Fetch) (random : Random) (arguments : List String) (logSpec : Option String)
    (workspace : Workspace) : Outcome :=
  let (filter, warnings) := LogFilter.parse (logSpec.getD "info")
  let preamble := String.join (warnings.map (· ++ "\n"))
  match parseArguments arguments with
  | .help => ⟨0, helpText, preamble, workspace⟩
  | .version => ⟨0, versionText, preamble, workspace⟩
  | .failed err => ⟨2, "", preamble ++ err.text, workspace⟩
  | .run options =>
    let ((result, workspace), records) :=
      LogM.runWith (some .trace) ((RunOptions.run fetch random options).run workspace)
    let (status, records) := match result with
      | .ok () => (0, records)
      | .error failure => (1, records.push ⟨.error, RunOptions.target, failure.message⟩)
    let shown := records.toList.filter filter.allows
    ⟨status, "", preamble ++ String.join (shown.map LogFilter.line), workspace⟩

end Outcome

end ClassKit
