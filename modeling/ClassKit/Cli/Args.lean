import ClassKit.Tool.Run

/-!
# The command line

```
classpatch [OPTIONS] --src <JAR> --out <JAR>
```

Options are long (`--src a.jar` or `--src=a.jar`); `-h`/`--help` prints the help and `-V`/
`--version` the version. Arguments are read left to right:

* an option that takes a value takes the next argument, unless that argument is an option
  itself; `--` makes every later argument a plain value;
* reaching a known option first settles the option still waiting for its value: with none, that
  is an error;
* an option may be given once; a flag takes no value; a path may not be empty;
* an unknown option, or a value that belongs to nothing, is an error, with a suggestion when a
  known option is spelled alike (Jaro similarity above 0.7).

Once all arguments are read, `--src` and `--out` must both have been given. Every error is
printed with a usage line and a pointer to the help, and ends the program with status 2.
-/

namespace ClassKit

/-- The options of the command line. -/
inductive CliFlag where
  | src | out | config | keyUrl | privateKey | noVerify | help | version
  deriving DecidableEq, Repr

namespace CliFlag

/-- All options, in the order the help lists them. -/
def all : List CliFlag := [src, out, config, keyUrl, privateKey, noVerify, help, version]

/-- The long name. -/
def long : CliFlag → String
  | src => "src" | out => "out" | config => "config" | keyUrl => "key-url"
  | privateKey => "private-key" | noVerify => "no-verify" | help => "help" | version => "version"

/-- The short name, if any. -/
def short : CliFlag → Option Char
  | help => some 'h'
  | version => some 'V'
  | _ => none

/-- The name of the value an option takes; flags take none. -/
def valueName : CliFlag → Option String
  | src | out => some "JAR"
  | config => some "JSON"
  | keyUrl => some "URL"
  | privateKey => some "DER"
  | _ => none

/-- Whether the value is a path, which may not be empty. -/
def isPath : CliFlag → Bool
  | src | out | config | privateKey => true
  | _ => false

/-- Whether the option must be given. -/
def isRequired : CliFlag → Bool
  | src | out => true
  | _ => false

/-- The option as messages name it: `--src <JAR>`, `--no-verify`. -/
def display (flag : CliFlag) : String :=
  match flag.valueName with
  | some name => s!"--{flag.long} <{name}>"
  | none => s!"--{flag.long}"

/-- The option with a long name. -/
def ofLong (name : String) : Option CliFlag := all.find? (·.long == name)

/-- The option with a short name. -/
def ofShort (c : Char) : Option CliFlag := all.find? (·.short == some c)

end CliFlag

/-! ## Similar names -/

/-- The Jaro similarity of two words as a fraction `(numerator, denominator)`: `m` characters
match when equal and at most `max(|a|, |b|) / 2 - 1` apart, `t` is half the number of matched
characters out of order, and the similarity is `(m/|a| + m/|b| + (m - t)/m) / 3`. -/
def jaro (a b : List Char) : Nat × Nat :=
  if a.isEmpty && b.isEmpty then (1, 1)
  else if a.isEmpty || b.isEmpty then (0, 1)
  else
    let range := max a.length b.length / 2 - 1
    let (aFlags, bFlags) := a.zipIdx.foldl (fun (aFlags, bFlags) (ca, i) =>
      let low := i - range
      let high := min b.length (i + range + 1)
      match (List.range high).find? fun j =>
          low ≤ j && b[j]? == some ca && !(bFlags.getD j false) with
      | some j => (aFlags.set i true, bFlags.set j true)
      | none => (aFlags, bFlags)) (List.replicate a.length false, List.replicate b.length false)
    let aMatched := (a.zip aFlags).filterMap fun (c, flag) => if flag then some c else none
    let bMatched := (b.zip bFlags).filterMap fun (c, flag) => if flag then some c else none
    let m := aMatched.length
    if m = 0 then (0, 1)
    else
      let t := ((aMatched.zip bMatched).filter fun (x, y) => x != y).length / 2
      (m * b.length * m + m * a.length * m + (m - t) * a.length * b.length,
        3 * a.length * b.length * m)

/-- The known long name most like `name`, if one is similar enough; of equally similar ones,
the last. -/
def suggestLong (name : String) : Option CliFlag :=
  CliFlag.all.foldl (fun best flag =>
    let (num, den) := jaro name.toList flag.long.toList
    if 10 * num ≤ 7 * den then best
    else
      match best with
      | some (_, bestNum, bestDen) =>
        if num * bestDen ≥ bestNum * den then some (flag, num, den) else best
      | none => some (flag, num, den)) (none : Option (CliFlag × Nat × Nat)) |>.map (·.1)

/-! ## Errors and texts -/

/-- Why the command line was refused. -/
inductive ArgError where
  | missingRequired (missing used : List CliFlag)
  | repeated (flag : CliFlag)
  | unexpectedValue (value : String) (flag : CliFlag) (used : List CliFlag)
  | unknown (argument : String) (suggestion : Option CliFlag) (used : List CliFlag)
  | emptyValue (flag : CliFlag)
  deriving DecidableEq, Repr

namespace ArgError

/-- The usage line for every use. -/
def generalUsage : String := "classpatch [OPTIONS] --src <JAR> --out <JAR>"

/-- The usage line naming the required options and those given, each once. -/
def usage (used : List CliFlag) : String :=
  if used.isEmpty then generalUsage
  else
    let named := ([CliFlag.src, CliFlag.out] ++ used).eraseDups
    String.join (("classpatch" :: named.map CliFlag.display).intersperse " ")

/-- The closing pointer to the help. -/
def tryHelp : String := "\n\nFor more information, try '--help'.\n"

/-- The error as printed. -/
def text : ArgError → String
  | missingRequired missing used =>
    "error: the following required arguments were not provided:" ++
      String.join (missing.map fun flag => "\n  " ++ flag.display) ++
      "\n\nUsage: " ++ usage used ++ tryHelp
  | repeated flag =>
    s!"error: the argument '{flag.display}' cannot be used multiple times\n\nUsage: " ++
      generalUsage ++ tryHelp
  | unexpectedValue value flag used =>
    s!"error: unexpected value '{value}' for '{flag.display}' found; no more were expected" ++
      "\n\nUsage: " ++ usage used ++ tryHelp
  | unknown argument suggestion used =>
    s!"error: unexpected argument '{argument}' found" ++
      (match suggestion with
        | some flag => s!"\n\n  tip: a similar argument exists: '--{flag.long}'"
        | none => "") ++
      "\n\nUsage: " ++ usage used ++ tryHelp
  | emptyValue flag =>
    s!"error: a value is required for '{flag.display}' but none was supplied" ++ tryHelp

end ArgError

/-- The help text. -/
def helpText : String :=
  "Deobfuscate a client JAR, replace its login key, and rename its classes\n\n" ++
  "Usage: classpatch [OPTIONS] --src <JAR> --out <JAR>\n\n" ++
  "Options:\n" ++
  "      --src <JAR>          The source jar\n" ++
  "      --out <JAR>          The output jar\n" ++
  "      --config <JSON>      Patcher configuration [default: patcher.json]\n" ++
  "      --key-url <URL>      Download the login public key (DER, X.509) instead of using a private key\n" ++
  "      --private-key <DER>  Login private key (DER, PKCS#8), generated if missing [default: login-private-key.der]\n" ++
  "      --no-verify          Skip type-checking the patched methods\n" ++
  "  -h, --help               Print help\n" ++
  "  -V, --version            Print version\n"

/-- The version text. -/
def versionText : String := "Client class patcher 0.1.0\n"

/-! ## Reading the arguments -/

/-- What the command line asks for. -/
inductive CliRequest where
  | run (options : RunOptions)
  | help
  | version
  | failed (err : ArgError)
  deriving DecidableEq, Repr

/-- Why reading stopped before the end: a request for help or the version, or an error. -/
inductive ArgStop where
  | help
  | version
  | failed (err : ArgError)
  deriving DecidableEq, Repr

/-- The arguments read so far: the options given with their values (`none` for flags) in the
order first given, the option waiting for its value and the value if it has come, and whether
`--` was seen. -/
structure ArgState where
  given : List (CliFlag × Option String) := []
  pending : Option (CliFlag × Option String) := none
  trailing : Bool := false
  deriving DecidableEq, Repr

namespace ArgState

/-- The options given, in order. -/
def flags (state : ArgState) : List CliFlag := state.given.map (·.1)

/-- The optional options given, in order. -/
def optional (state : ArgState) : List CliFlag := state.flags.filter (!·.isRequired)

/-- Takes an option with its values (none or one). -/
def accept (state : ArgState) (flag : CliFlag) (value : Option String) :
    Except ArgStop ArgState := do
  if flag.valueName.isSome && value.isNone then throw (.failed (.emptyValue flag))
  match flag with
  | .help => throw .help
  | .version => throw .version
  | _ => pure ()
  if state.flags.contains flag then throw (.failed (.repeated flag))
  if flag.isPath && value == some "" then throw (.failed (.emptyValue flag))
  pure { state with given := state.given ++ [(flag, value)] }

/-- Settles the option waiting for its value. -/
def settle (state : ArgState) : Except ArgStop ArgState :=
  match state.pending with
  | none => pure state
  | some (flag, value) => { state with pending := none }.accept flag value

/-- Settles the option waiting for its value, keeping what was read if that fails. -/
def settleQuietly (state : ArgState) : ArgState :=
  match state.settle with
  | .ok settled => settled
  | .error _ => { state with pending := none }

/-- Reads an argument that names a long option, with the value after `=` if any. -/
def long (state : ArgState) (name : String) (attached : Option String) :
    Except ArgStop ArgState := do
  match CliFlag.ofLong name with
  | none =>
    let state := state.settleQuietly
    let suggestion := suggestLong name
    let used := (state.optional ++ (suggestion.filter (!·.isRequired)).toList).eraseDups
    throw (.failed (.unknown s!"--{name}" suggestion used))
  | some flag =>
    match flag.valueName, attached with
    | some _, some value => (← state.settle).accept flag (some value)
    | some _, none => pure { (← state.settle) with pending := some (flag, none) }
    | none, some value => throw (.failed (.unexpectedValue value flag (state.optional ++ [flag])))
    | none, none => (← state.settle).accept flag none

/-- Reads an argument of short options, one character after another. -/
def shorts (state : ArgState) : List Char → Except ArgStop ArgState
  | [] => pure state
  | c :: rest => do
    match CliFlag.ofShort c with
    | some flag => shorts (← (← state.settle).accept flag none) rest
    | none => throw (.failed (.unknown s!"-{c}" none []))

/-- Reads an argument that is a value. -/
def value (state : ArgState) (text : String) : Except ArgStop ArgState :=
  match state.pending with
  | some (flag, none) => pure { state with pending := some (flag, some text) }
  | _ => throw (.failed (.unknown text none []))

/-- Reads one argument. -/
def step (state : ArgState) (argument : String) : Except ArgStop ArgState :=
  if state.trailing then state.value argument
  else if argument == "--" then pure { state with trailing := true }
  else if argument.startsWith "--" then
    let body := argument.drop 2 |>.toString
    match body.splitOn "=" with
    | name :: rest@(_ :: _) => state.long name (some ("=".intercalate rest))
    | _ => state.long body none
  else if argument.startsWith "-" && argument != "-" then
    state.shorts (argument.drop 1).toString.toList
  else state.value argument

/-- The value given for an option. -/
def valueOf (state : ArgState) (flag : CliFlag) : Option String :=
  (state.given.lookup flag).join

/-- The request, once every argument is read. -/
def finish (state : ArgState) : CliRequest :=
  match state.settle with
  | .error .help => .help
  | .error .version => .version
  | .error (.failed err) => .failed err
  | .ok state =>
    let missing := [CliFlag.src, CliFlag.out].filter (!state.flags.contains ·)
    if !missing.isEmpty then .failed (.missingRequired missing (state.flags ++ missing))
    else
      .run { src := (state.valueOf .src).getD "", out := (state.valueOf .out).getD "",
             config := (state.valueOf .config).getD "patcher.json",
             keyUrl := state.valueOf .keyUrl,
             privateKey := (state.valueOf .privateKey).getD "login-private-key.der",
             verify := !state.flags.contains .noVerify }

end ArgState

/-- Reads the arguments of the command line. -/
def parseArguments (arguments : List String) : CliRequest :=
  match arguments.foldlM ArgState.step {} with
  | .ok state => state.finish
  | .error .help => .help
  | .error .version => .version
  | .error (.failed err) => .failed err

end ClassKit
