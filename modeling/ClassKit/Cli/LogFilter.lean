import ClassKit.Log

/-!
# Log filters

Which log records a run prints is chosen by a filter specification, such as `info`,
`classpatch=debug` or `warn,classpatch::key=trace/Modulus`:

* before an optional `/`, comma-separated directives. A directive `target=level` sets the most
  verbose level shown for targets starting with `target`; a lone level sets it for every target;
  a lone name shows everything of targets starting with it. A later directive for the same name
  replaces an earlier one. A directive that cannot be read is ignored with a warning;
* after the `/`, text that a record's message must contain to be shown.

A record is shown when the directive with the longest name that starts its target allows its
level. With no directive at all, only errors are shown.

A shown record is printed as `[LEVEL target] message`, the level padded to five characters.
-/

namespace ClassKit

/-- Records of targets starting with `name` (any target when none) are shown up to `level`;
with `level` none they are not shown. -/
structure LogDirective where
  name : Option String
  level : Option Level
  deriving DecidableEq, Repr

/-- A parsed filter: its directives, shortest name first, and the text messages must contain. -/
structure LogFilter where
  directives : List LogDirective
  pattern : Option String := none
  deriving DecidableEq, Repr

namespace LogFilter

/-- A level name, in any case; `off` shows nothing. -/
def parseLevel (text : String) : Option (Option Level) :=
  match text.toLower with
  | "off" => some none
  | "error" => some (some .error)
  | "warn" => some (some .warn)
  | "info" => some (some .info)
  | "debug" => some (some .debug)
  | "trace" => some (some .trace)
  | _ => none

/-- One comma-separated directive, or the warning it is ignored with. -/
def parseDirective (text : String) : Except String LogDirective :=
  match text.splitOn "=" with
  | [single] =>
    match parseLevel single with
    | some level => .ok ⟨none, level⟩
    | none => .ok ⟨some single, some .trace⟩
  | [name, level] =>
    let level := level.trimAscii.toString
    if level.isEmpty then .ok ⟨some name, some .trace⟩
    else
      match parseLevel level with
      | some parsed => .ok ⟨some name, parsed⟩
      | none => .error s!"warning: invalid logging spec '{level}', ignoring it"
  | _ => .error s!"warning: invalid logging spec '{text}', ignoring it"

/-- Adds a directive; one with the same name is replaced. -/
def insertDirective (directives : List LogDirective) (directive : LogDirective) :
    List LogDirective :=
  directives.filter (·.name != directive.name) ++ [directive]

/-- The length of a directive's name, none counting as empty. -/
def nameLength (directive : LogDirective) : Nat := (directive.name.map String.length).getD 0

/-- Sorts directives by name length, keeping the order of equal lengths. -/
def sortByLength (directives : List LogDirective) : List LogDirective :=
  let lengths := (directives.map nameLength).eraseDups.mergeSort
  lengths.flatMap fun length => directives.filter (nameLength · == length)

/-- Parses a specification: the filter, and the warnings about what was ignored. -/
def parse (spec : String) : LogFilter × List String :=
  match spec.splitOn "/" with
  | [] | _ :: _ :: _ :: _ =>
    (⟨[ ⟨none, some .error⟩ ], none⟩,
      [s!"warning: invalid logging spec '{spec}', ignoring it (too many '/'s)"])
  | modules :: pattern =>
    let (directives, warnings) := (modules.splitOn ",").foldl (fun (directives, warnings) part =>
      let part := part.trimAscii.toString
      if part.isEmpty then (directives, warnings)
      else
        match parseDirective part with
        | .ok directive => (insertDirective directives directive, warnings)
        | .error warning => (directives, warnings ++ [warning])) (([] : List LogDirective), ([] : List String))
    let directives := if directives.isEmpty then [⟨none, some .error⟩] else sortByLength directives
    (⟨directives, pattern.head?⟩, warnings)

/-- Whether a record is shown. -/
def allows (filter : LogFilter) (record : LogRecord) : Bool :=
  let decided := filter.directives.reverse.find? fun directive =>
    match directive.name with
    | some name => name.isPrefixOf record.target
    | none => true
  let levelShown := match decided with
    | some ⟨_, some most⟩ => record.level.rank ≤ most.rank
    | _ => false
  levelShown && match filter.pattern with
    | some text => text.isEmpty || (record.message.splitOn text).length > 1
    | none => true

/-- A record as printed. -/
def line (record : LogRecord) : String :=
  let level := record.level.name
  let padded := level ++ String.ofList (List.replicate (5 - level.length) ' ')
  s!"[{padded} {record.target}] {record.message}\n"

end LogFilter

end ClassKit
