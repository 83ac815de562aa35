import ClassKit.Descriptor.Basic

/-!
# Verification types

The verifier tracks the type of every stack entry and local slot, coarsely: one type for all
references, one for return addresses pushed by `jsr`, and `top` for a slot whose type is unknown
(two types met, or the second half of a `long` or `double`). No instruction that expects a
type accepts `top`, neither from the stack nor from a local; the untyped stack instructions
(`pop`, `dup`, `swap` and their kin) take whatever the stack holds, `top` included, as one slot.
-/

namespace ClassKit

/-- The type of a value as far as the verifier tracks it. -/
inductive VerificationType where
  | integer | float | long | double | reference | returnAddress | top
  deriving DecidableEq, Hashable, Inhabited, Repr

namespace VerificationType

/-- The name of the type in messages. -/
def name : VerificationType → String
  | integer => "Integer" | float => "Float" | long => "Long" | double => "Double"
  | reference => "Reference" | returnAddress => "ReturnAddress" | top => "Top"

/-- Slots taken: two for `long` and `double`. -/
def width : VerificationType → Nat
  | long | double => 2
  | _ => 1

/-- The least type above both: the type itself if they agree, `top` otherwise. -/
def merge (mine theirs : VerificationType) : VerificationType :=
  if mine = theirs then mine else top

/-- The type of a value of a field type: all primitives narrower than `int` count as `integer`. -/
def ofFieldType : FieldType → VerificationType
  | .base .float => float
  | .base .long => long
  | .base .double => double
  | .base _ => integer
  | .ref _ => reference

end VerificationType

/-- Why an instruction cannot run on the types at hand. -/
inductive VerifierFault where
  | emptyStack
  | incompatibleTypes (expected found : VerificationType)
  | invalidCategory (type : VerificationType)
  | invalidLocal (slot : Nat)
  | incompatibleStackHeights (mine theirs : Nat)
  | fallsOffEnd
  | invalidReturn
  deriving DecidableEq, Repr

namespace VerifierFault

def message : VerifierFault → String
  | emptyStack => "pop from empty stack"
  | incompatibleTypes expected found => s!"expected {expected.name}, found {found.name}"
  | invalidCategory type => s!"wrong value size for {type.name}"
  | invalidLocal slot => s!"invalid local variable {slot}"
  | incompatibleStackHeights mine theirs => s!"incompatible stack heights {mine} and {theirs}"
  | fallsOffEnd => "execution falls off end of code"
  | invalidReturn => "return does not match descriptor"

end VerifierFault

end ClassKit
