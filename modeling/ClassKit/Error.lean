import ClassKit.Pool.Constant
import ClassKit.Code.Label
import ClassKit.Verifier.Types
import ClassKit.Descriptor.Parse

/-!
# Errors of reading, writing and checking classes

Each constructor is one cause; `ClassError.message` holds all the wording.
-/

namespace ClassKit

/-- A method body that failed verification, with what is needed to explain where. -/
structure VerificationFailure where
  className : String
  method : String
  descriptor : String
  /-- Position in the body, labels counted. -/
  index : Nat
  /-- The entry at that position as text, or `<end of code>`. -/
  instruction : String
  fault : VerifierFault
  /-- The whole body, one numbered entry per line. -/
  listing : String
  deriving DecidableEq, Repr

/-- Why a class could not be read, written or verified. -/
inductive ClassError where
  /-- The bytes ended in the middle of a structure. -/
  | truncated
  | badMagic (magic : Nat)
  | unsupportedVersion (major minor : Nat)
  | trailingBytes (count : Nat)
  | poolOverflow (constant : Constant) (offset : Nat)
  | badConstantIndex (index : Nat)
  | unexpectedConstant (index : Nat) (expected : String)
  | unsupportedConstant (tag : Nat)
  | malformedUtf8 (problem : String)
  | badName (problem : String)
  | badDescriptor (problem : String)
  | malformedAttribute (name : String)
  | unknownOpcode (offset : Nat) (opcode : Nat)
  | unsupportedInstruction (offset : Nat) (name : String)
  | badBranchTarget (offset : Nat) (target : Int)
  | unplacedLabel (label : Label)
  | duplicateLabel (label : Label)
  | codeTooLong (length : Nat)
  | maxStackTooLarge (depth : Nat)
  | maxLocalsTooLarge (slots : Nat)
  | duplicateMethod (name descriptor : String)
  | duplicateField (name descriptor : String)
  | verification (failure : VerificationFailure)
  deriving DecidableEq

/-- Hexadecimal digits of `n`, left-padded with zeros to `width`. -/
def hexPadded (n width : Nat) : String :=
  let digits := Nat.toDigits 16 n
  String.ofList (List.replicate (width - digits.length) '0' ++ digits)

namespace ClassError

def message : ClassError → String
  | truncated => "failed to fill whole buffer"
  | badMagic magic => s!"bad magic number 0x{hexPadded magic 8}"
  | unsupportedVersion major minor => s!"unsupported class version {major}.{minor}"
  | trailingBytes count => s!"{count} trailing bytes after class"
  | poolOverflow constant offset =>
    s!"constant pool overflow at {offset} adding {constant.describe}"
  | badConstantIndex index => s!"bad constant pool index {index}"
  | unexpectedConstant index expected => s!"constant {index} is not a {expected}"
  | unsupportedConstant tag => s!"unsupported constant tag {tag}"
  | malformedUtf8 problem => s!"malformed modified UTF-8: {problem}"
  | badName problem => s!"bad name: {problem}"
  | badDescriptor problem => s!"bad descriptor: {problem}"
  | malformedAttribute name => s!"malformed {name} attribute"
  | unknownOpcode offset opcode => s!"unknown opcode 0x{hexPadded opcode 2} at offset {offset}"
  | unsupportedInstruction offset name => s!"unsupported instruction {name} at offset {offset}"
  | badBranchTarget offset target => s!"bad branch target {target} from offset {offset}"
  | unplacedLabel label => s!"label {label.text} is never placed"
  | duplicateLabel label => s!"label {label.text} is placed twice"
  | codeTooLong length => s!"method code too long ({length} bytes)"
  | maxStackTooLarge depth => s!"max stack too large ({depth})"
  | maxLocalsTooLarge slots => s!"max locals too large ({slots})"
  | duplicateMethod name descriptor => s!"duplicate method {name}{descriptor}"
  | duplicateField name descriptor => s!"duplicate field {name} {descriptor}"
  | verification failure =>
    s!"Bytecode correctness failed: {failure.fault.message} at {failure.className}.{failure.method}{failure.descriptor} (instruction {failure.index}: {failure.instruction})"

/-- The name of the error's kind, as reports give it. -/
def kind : ClassError → String
  | truncated => "IoError" | badMagic .. => "BadMagic"
  | unsupportedVersion .. => "UnsupportedVersion" | trailingBytes .. => "TrailingBytes"
  | poolOverflow .. => "ConstantPoolOverflow" | badConstantIndex .. => "BadConstantIndex"
  | unexpectedConstant .. => "UnexpectedConstant" | unsupportedConstant .. => "UnsupportedConstant"
  | malformedUtf8 .. => "MalformedUtf8" | badName .. => "BadName"
  | badDescriptor .. => "BadDescriptor" | malformedAttribute .. => "MalformedAttribute"
  | unknownOpcode .. => "UnknownOpcode" | unsupportedInstruction .. => "UnsupportedInstruction"
  | badBranchTarget .. => "BadBranchTarget" | unplacedLabel .. => "UnplacedLabel"
  | duplicateLabel .. => "DuplicateLabel" | codeTooLong .. => "MethodCodeOverflow"
  | maxStackTooLarge .. => "MethodCodeMaxStackOverflow"
  | maxLocalsTooLarge .. => "MethodCodeMaxLocalsOverflow"
  | duplicateMethod .. => "DuplicateMethod" | duplicateField .. => "DuplicateField"
  | verification .. => "VerifierError"

end ClassError

end ClassKit

namespace ClassKit

namespace RefType

/-- Reads the text of a class constant: an array descriptor if it starts with `[`, a binary name
otherwise. -/
def ofClassText (text : String) : Except ClassError RefType :=
  if text.startsWith "[" then
    match RefType.parse text with
    | .ok type => .ok type
    | .error err => .error (.badDescriptor s!"{text}: {err.toText}")
  else
    match BinaryName.ofString text with
    | .ok name => .ok (.object name)
    | .error problem => .error (.badName problem)

end RefType

end ClassKit

namespace ClassKit

/-- A successful `first >>= rest` in `Except` is a successful `first` and a successful `rest`. -/
theorem bind_eq_ok {ε α β : Type} {first : Except ε α} {rest : α → Except ε β} {value : β}
    (ran : (first >>= rest) = .ok value) : ∃ middle, first = .ok middle ∧ rest middle = .ok value := by
  cases first with
  | error err => cases ran
  | ok middle => exact ⟨middle, rfl, ran⟩

/-- A successful `f <$> action` in `Except` is a successful `action`. -/
theorem map_eq_ok {ε α β : Type} {f : α → β} {action : Except ε α} {value : β} :
    f <$> action = .ok value ↔ ∃ middle, action = .ok middle ∧ f middle = value := by
  cases action with
  | error err => simp [Functor.map, Except.map]
  | ok middle => simp [Functor.map, Except.map]

/-- `f <$> action` in `Except` fails exactly as `action` does. -/
theorem map_eq_error {ε α β : Type} {f : α → β} {action : Except ε α} {err : ε} :
    f <$> action = .error err ↔ action = .error err := by
  cases action <;> simp [Functor.map, Except.map]

section OptionMapM

variable {ε α β : Type} {f : α → Except ε β} {found : Option α}

theorem mapM_eq_ok_some {value : β} :
    found.mapM f = .ok (some value) ↔ ∃ item, found = some item ∧ f item = .ok value := by
  cases found with
  | none => simp [pure, Except.pure]
  | some item => simp [map_eq_ok]

theorem mapM_eq_ok_none : found.mapM f = .ok none ↔ found = none := by
  cases found with
  | none => simp [pure, Except.pure]
  | some item => simp [map_eq_ok]

theorem mapM_eq_error {err : ε} :
    found.mapM f = .error err ↔ ∃ item, found = some item ∧ f item = .error err := by
  cases found with
  | none => simp [pure, Except.pure]
  | some item => simp [map_eq_error]

end OptionMapM

end ClassKit
