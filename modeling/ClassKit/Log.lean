/-!
# Log records

Operations report progress as log records: a level, the part of the program that speaks (its
*target*, such as `classpatch::patch::pipeline`) and a message. A journal keeps the records at or
above the chosen verbosity, in the order they are emitted; with logging off it keeps none.

Records are data: an operation that logs runs in `LogM`, a state over the journal, so a failed
operation still leaves behind what it logged before failing.
-/

namespace ClassKit

/-- How important a record is, from `error` (most) to `trace` (least). -/
inductive Level where
  | error | warn | info | debug | trace
  deriving DecidableEq, Repr, Inhabited

namespace Level

/-- The rank of a level; a higher rank is more verbose. -/
def rank : Level → Nat
  | error => 0 | warn => 1 | info => 2 | debug => 3 | trace => 4

/-- The level's name in capitals, as records show it. -/
def name : Level → String
  | error => "ERROR" | warn => "WARN" | info => "INFO" | debug => "DEBUG" | trace => "TRACE"

end Level

/-- One log record. -/
structure LogRecord where
  level : Level
  target : String
  message : String
  deriving DecidableEq, Repr, Inhabited

/-- The records kept so far, and the most verbose level kept (`none` keeps nothing). -/
structure Journal where
  verbosity : Option Level := none
  records : Array LogRecord := #[]
  deriving Inhabited

namespace Journal

/-- Whether records of `level` are kept. -/
def enabled (journal : Journal) (level : Level) : Bool :=
  match journal.verbosity with
  | some most => level.rank ≤ most.rank
  | none => false

/-- The journal with a record added, if its level is kept. -/
def add (journal : Journal) (record : LogRecord) : Journal :=
  if journal.enabled record.level then { journal with records := journal.records.push record }
  else journal

end Journal

/-- A computation that may log. -/
abbrev LogM := StateM Journal

/-- Emits a record. -/
def emit (level : Level) (target message : String) : LogM Unit :=
  modify (·.add ⟨level, target, message⟩)

/-- Whether records of `level` are being kept. -/
def logging (level : Level) : LogM Bool := do
  return (← get).enabled level

/-- Runs a computation with a journal at the given verbosity, returning its result and records. -/
def LogM.runWith {α : Type} (verbosity : Option Level) (action : LogM α) : α × Array LogRecord :=
  let (result, journal) := action.run { verbosity }
  (result, journal.records)

/-- A computation that may log and fail with an error of type `ε`. -/
abbrev LogExcept (ε : Type) := ExceptT ε LogM

/-- Raises an error that does not log into a computation that may log. -/
def liftExcept {ε α : Type} (result : Except ε α) : LogExcept ε α := ExceptT.mk (pure result)

theorem Journal.add_silent (journal : Journal) (record : LogRecord)
    (quiet : journal.enabled record.level = false) : journal.add record = journal := by
  simp [Journal.add, quiet]

end ClassKit
