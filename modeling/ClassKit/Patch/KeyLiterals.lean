import ClassKit.Code.Body
import ClassKit.Patch.Settings

/-!
# Key literals

Both halves of the login key are `static final BigInteger` fields initialised from decimal
string literals:

```text
new java/math/BigInteger
dup
ldc "1234..."
invokespecial java/math/BigInteger.<init>(Ljava/lang/String;)V
putstatic cb.n : Ljava/math/BigInteger;
```

Every `putstatic` to a `BigInteger` field of the given name (whatever its class) whose entry two
places before is a string `ldc` gets that literal replaced.
-/

namespace ClassKit

namespace Entry

/-- Whether the entry assigns a `BigInteger` static field called `field`. -/
def assignsBigInteger (field : UnqualifiedName) : Entry → Bool
  | instruction (.field .putStatic ref) =>
    ref.name == field && ref.descriptor == FieldType.object BinaryName.bigInteger
  | _ => false

/-- Whether the entry pushes a string literal. -/
def pushesString : Entry → Bool
  | instruction (.ldc (.string _)) => true
  | _ => false

end Entry

namespace Body

/-- Replaces the literals assigned to a key field; returns the body and how many changed. -/
def replaceKeyLiteral (body : Body) (location : FieldLocation) (value : String) : Body × Nat :=
  let entries := body.entries
  let replaced : Array Bool := entries.mapIdx fun index entry =>
    entry.pushesString && ((entries[index + 2]?.map (·.assignsBigInteger location.field)) == some true)
  let result := (entries.zip replaced).map fun (entry, change) =>
    if change then Entry.instruction (.ldc (.string value)) else entry
  ({ body with entries := result }, replaced.countP id)

end Body

end ClassKit
