import Std.Data.HashMap
import ClassKit.Pool.Table
import ClassKit.Descriptor.Basic

/-!
# Building a constant pool

Writing a class collects its constants into a fresh pool, in the order they are first asked for.
Asking twice for the same entry gives the same index: an entry is identified by its whole
content, so floats and doubles are told apart by their bits and interface method references from
plain ones.

Indices start at 1 and a wide entry takes two. The largest usable index is 65534, so adding an
entry fails with `poolOverflow` once the next free index would reach 65535.
-/

namespace ClassKit

/-- A pool under construction: its entries in order, the next free index, and the index of
every entry added so far. -/
structure PoolBuilder where
  constants : Array Constant := #[]
  nextIndex : Nat := 1
  known : Std.HashMap Constant Nat := {}

/-- A computation that adds entries to a pool under construction. Entries added before a
failure stay in the pool. -/
abbrev PoolM := ExceptT ClassError (StateM PoolBuilder)

namespace PoolBuilder

/-- The finished pool. -/
def toPool (builder : PoolBuilder) : ConstantPool := ConstantPool.ofConstants builder.constants

/-- The index of an entry, added at the end if it is new. -/
def intern (constant : Constant) : PoolM Nat := do
  let builder ← get
  match builder.known[constant]? with
  | some index => pure index
  | none =>
    let offset := builder.nextIndex
    let next := offset + constant.width
    if next < 65535 then
      set { constants := builder.constants.push constant, nextIndex := next,
            known := builder.known.insert constant offset : PoolBuilder }
      pure offset
    else throw (.poolOverflow constant offset)

/-- A Utf8 entry. -/
def utf8 (text : String) : PoolM Nat := intern (.utf8 text)

/-- A class entry for a class constant text. -/
def classText (text : String) : PoolM Nat := do
  intern (.classRef (← utf8 text))

/-- A class entry for a class. -/
def binaryName (name : BinaryName) : PoolM Nat := classText name.text

/-- A class entry for a reference type; arrays are named by their descriptor. -/
def refType (type : RefType) : PoolM Nat := classText type.classConstantText

/-- A string entry. -/
def string (text : String) : PoolM Nat := do
  intern (.string (← utf8 text))

/-- A name-and-type entry for two texts, taken as they are. -/
def nameAndType (name descriptor : String) : PoolM Nat := do
  let name ← utf8 name
  let descriptor ← utf8 descriptor
  intern (.nameAndType name descriptor)

/-- A field reference entry. -/
def fieldRef (ref : FieldRef) : PoolM Nat := do
  let owner ← binaryName ref.owner
  let member ← nameAndType ref.name.text ref.descriptor.render
  intern (.fieldRef owner member)

/-- A method reference entry, of the interface kind when `isInterface` is set. -/
def methodRef (ref : MethodRef) : PoolM Nat := do
  let owner ← refType ref.owner
  let member ← nameAndType ref.name.text ref.descriptor.render
  intern (.methodRef owner member ref.isInterface)

/-- The entry holding a literal. -/
def literal : Literal → PoolM Nat
  | .string text => string text
  | .classRef type => refType type
  | .integer value => intern (.integer value)
  | .long value => intern (.long value)
  | .float bits => intern (.float bits)
  | .double bits => intern (.double bits)

end PoolBuilder

end ClassKit
