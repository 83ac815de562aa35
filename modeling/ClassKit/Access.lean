/-!
# Access flags

Classes, fields and methods each carry a 16-bit set of access flags. Each kind of member
defines its own bits (the class file format's tables for classes, fields and methods); bits
that a kind does not define are dropped on reading, since none of them means anything for the
class versions handled here.
-/

namespace ClassKit

/-- Access flags of a class: public, final, super, interface, abstract, synthetic, annotation,
enum. -/
structure ClassFlags where
  bits : Nat
  deriving DecidableEq, Repr, Inhabited

/-- Access flags of a field: public, private, protected, static, final, volatile, transient,
synthetic, enum. -/
structure FieldFlags where
  bits : Nat
  deriving DecidableEq, Repr, Inhabited

/-- Access flags of a method: public, private, protected, static, final, synchronized, bridge,
varargs, native, abstract, strict, synthetic. -/
structure MethodFlags where
  bits : Nat
  deriving DecidableEq, Repr, Inhabited

namespace ClassFlags

/-- The bits defined for classes. -/
def mask : Nat := 0x7631

/-- Keeps only the defined bits of a 16-bit word. -/
def ofBits (word : Nat) : ClassFlags := ⟨word % 0x10000 &&& mask⟩

end ClassFlags

namespace FieldFlags

/-- The bits defined for fields. -/
def mask : Nat := 0x50df

/-- Keeps only the defined bits of a 16-bit word. -/
def ofBits (word : Nat) : FieldFlags := ⟨word % 0x10000 &&& mask⟩

end FieldFlags

namespace MethodFlags

/-- The bits defined for methods. -/
def mask : Nat := 0x1dff

/-- The static bit. -/
def static : Nat := 0x0008

/-- Keeps only the defined bits of a 16-bit word. -/
def ofBits (word : Nat) : MethodFlags := ⟨word % 0x10000 &&& mask⟩

/-- Whether the method belongs to the class rather than to an instance. -/
def isStatic (flags : MethodFlags) : Bool := flags.bits &&& static != 0

end MethodFlags

end ClassKit
