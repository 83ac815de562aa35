import ClassKit.Code.Body

/-!
# Shift distances

A shift reads only the low five bits of its distance (six for a `long` shift). A constant
distance pushed right before a shift is masked down to those bits, so that decompilers and
readers see the distance that actually applies. `ldc` and `sipush` keep their form; everything
else becomes `bipush`. A label between the constant and the shift stops this.
-/

namespace ClassKit

namespace Entry

/-- The mask of the distance of a shift: 31 for `int`, 63 for `long`. -/
def shiftMask? : Entry → Option Int32
  | instruction (.shift _ isLong) => some (if isLong then 63 else 31)
  | _ => none

end Entry

namespace Instruction

/-- The instruction pushing the masked distance, if masking changes it. -/
def maskedDistance? (mask : Int32) (instruction : Instruction) : Option Instruction := do
  let value ← instruction.intConstant?
  let masked := value &&& mask
  if masked == value then none
  else some (match instruction with
    | ldc _ => ldc (.integer masked)
    | sipush _ => sipush masked.toInt16
    | _ => bipush masked.toInt8)

end Instruction

namespace Body

/-- Masks every constant shift distance; returns the body and how many constants changed. -/
def maskShifts (body : Body) : Body × Nat :=
  let entries := body.entries
  let masked : Array (Option Entry) := entries.mapIdx fun index entry =>
    match (entries[index + 1]?).bind Entry.shiftMask?, entry with
    | some mask, .instruction instruction => Entry.instruction <$> instruction.maskedDistance? mask
    | _, _ => none
  let result := (masked.zip entries).map fun (replacement, entry) => replacement.getD entry
  ({ body with entries := result }, masked.countP Option.isSome)

end Body

end ClassKit
