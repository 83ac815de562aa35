/-!
# Labels

A label marks a position in a method body. Branches and exception handlers refer to labels rather
than byte offsets, so instructions can be added and removed freely; offsets are only worked out
when the body is encoded.
-/

namespace ClassKit

/-- A position marker in a method body, written `l3`. Labels are numbered in 32 bits, counting up
from `l0`: decoding numbers at most one label per code offset, and fresh labels are counted
with `next`, which stops at `last`. -/
structure Label where
  index : Nat
  deriving DecidableEq, Hashable, Inhabited, Repr, Ord

namespace Label

def text (label : Label) : String := s!"l{label.index}"

/-- The last label, the largest 32-bit number. -/
def last : Label := ⟨4294967295⟩

/-- The failure of counting past the last label. -/
def overflow : String := "attempt to add with overflow"

/-- The label after this one, used to hand out fresh labels. Labels are counted with an overflow
check, so there is none after the last label. -/
def next (label : Label) : Except String Label :=
  if label.index < last.index then .ok ⟨label.index + 1⟩ else .error overflow

instance : LT Label := ⟨fun a b => a.index < b.index⟩
instance : LE Label := ⟨fun a b => a.index ≤ b.index⟩
instance (a b : Label) : Decidable (a < b) := inferInstanceAs (Decidable (a.index < b.index))
instance (a b : Label) : Decidable (a ≤ b) := inferInstanceAs (Decidable (a.index ≤ b.index))

end Label

end ClassKit
