import ClassKit.Binary.Bytes
import ClassKit.Code.Instruction
import ClassKit.Text.ModifiedUtf8

/-!
# The constant pool as read from a class file

A pool read from a class file is a table of slots: slot 0 and the slot after every `long` or
`double` are unusable and hold nothing. Looking an entry up checks that the slot holds an entry
of the expected kind, and resolving follows the references between entries down to names,
descriptors and literals, checking each of them.

`ConstantPool.read` and `ConstantPool.bytes` are the two directions of the format: a 16-bit slot
count, then the entries in order.
-/

namespace ClassKit

/-- A constant pool: its slots, with `none` for the unusable ones. -/
structure ConstantPool where
  entries : Array (Option Constant)
  deriving Inhabited

namespace Constant

/-- The bytes of an entry in a class file. A text longer than 65535 bytes has its length
written modulo 65536. -/
def bytes : Constant → List UInt8
  | utf8 text =>
    let encoded := ModifiedUtf8.encode text
    [1] ++ Bytes.u16 encoded.length ++ encoded
  | integer value => [3] ++ Bytes.ofInt 4 value.toInt
  | float bits => [4] ++ Bytes.u32 bits.toNat
  | long value => [5] ++ Bytes.ofInt 8 value.toInt
  | double bits => [6] ++ Bytes.ofNat 8 bits.toNat
  | classRef name => [7] ++ Bytes.u16 name
  | string text => [8] ++ Bytes.u16 text
  | fieldRef owner member => [9] ++ Bytes.u16 owner ++ Bytes.u16 member
  | methodRef owner member isInterface =>
    [if isInterface then 11 else 10] ++ Bytes.u16 owner ++ Bytes.u16 member
  | nameAndType name descriptor => [12] ++ Bytes.u16 name ++ Bytes.u16 descriptor

/-- Reads one entry: a tag byte, then the entry's fields. -/
def read : ByteReader Constant := do
  let tag ← ByteReader.u8
  match tag with
  | 1 =>
    let length ← ByteReader.u16
    let encoded ← ByteReader.take length
    match ModifiedUtf8.decode encoded with
    | .ok text => pure (utf8 text)
    | .error problem => throw (.malformedUtf8 problem.message)
  | 3 => (fun value => integer (Int32.ofInt value)) <$> ByteReader.i32
  | 4 => (fun value => float value.toUInt32) <$> ByteReader.u32
  | 5 => (fun value => long (Int64.ofInt value)) <$> ByteReader.intOf 8
  | 6 => (fun value => double value.toUInt64) <$> ByteReader.natOf 8
  | 7 => classRef <$> ByteReader.u16
  | 8 => string <$> ByteReader.u16
  | 9 => do
    let owner ← ByteReader.u16
    let member ← ByteReader.u16
    pure (fieldRef owner member)
  | 10 | 11 => do
    let owner ← ByteReader.u16
    let member ← ByteReader.u16
    pure (methodRef owner member (tag == 11))
  | 12 => do
    let name ← ByteReader.u16
    let descriptor ← ByteReader.u16
    pure (nameAndType name descriptor)
  | other => throw (.unsupportedConstant other)

end Constant

namespace ConstantPool

/-- The number of slots, slot 0 and unusable slots included. -/
def size (pool : ConstantPool) : Nat := pool.entries.size

/-- A pool has no usable entry when it has at most the unusable slot 0. -/
def isEmpty (pool : ConstantPool) : Bool := pool.entries.size ≤ 1

/-- The usable entries with their indices, in order. -/
def indexed (pool : ConstantPool) : List (Nat × Constant) :=
  (pool.entries.toList.zipIdx).filterMap fun (entry, index) => entry.map (index, ·)

/-- Slots of a pool holding `constants` in order: slot 0, then each entry, followed by an
unusable slot when it is wide. -/
def ofConstants (constants : Array Constant) : ConstantPool :=
  ⟨constants.foldl (fun slots constant =>
    let slots := slots.push (some constant)
    if constant.width == 2 then slots.push none else slots) #[none]⟩

/-- The pool in a class file: the slot count, then the usable entries. -/
def bytes (pool : ConstantPool) : List UInt8 :=
  Bytes.u16 pool.entries.size ++ pool.entries.toList.flatMap fun entry =>
    match entry with
    | some constant => constant.bytes
    | none => []

/-- Reads entries until `count` slots are filled; each entry fills at least one slot, so
`count` rounds suffice. -/
def readSlots (count : Nat) : Nat → Array (Option Constant) → ByteReader (Array (Option Constant))
  | 0, slots => pure slots
  | rounds + 1, slots =>
    if slots.size < count then do
      let constant ← Constant.read
      let slots := slots.push (some constant)
      readSlots count rounds (if constant.width == 2 then slots.push none else slots)
    else pure slots

/-- Reads a pool: a slot count, then entries up to it. A wide entry in the last slot overshoots
the count, and a count of zero leaves no room for slot 0; both are malformed. -/
def read : ByteReader ConstantPool := do
  let count ← ByteReader.u16
  let slots ← readSlots count count #[none]
  if slots.size != count then throw (.malformedAttribute "constant pool")
  pure ⟨slots⟩

/-! ## Looking entries up -/

/-- The entry at a usable slot. -/
def get (pool : ConstantPool) (index : Nat) : Except ClassError Constant :=
  match pool.entries[index]? with
  | some (some constant) => .ok constant
  | _ => .error (.badConstantIndex index)

/-- The text of a Utf8 entry. -/
def utf8 (pool : ConstantPool) (index : Nat) : Except ClassError String := do
  match ← pool.get index with
  | .utf8 text => pure text
  | _ => throw (.unexpectedConstant index "Utf8")

/-- The text named by a class entry: a binary name or an array descriptor. -/
def classText (pool : ConstantPool) (index : Nat) : Except ClassError String := do
  match ← pool.get index with
  | .classRef name => pool.utf8 name
  | _ => throw (.unexpectedConstant index "Class")

/-- The two texts of a name-and-type entry. -/
def nameAndType (pool : ConstantPool) (index : Nat) : Except ClassError (String × String) := do
  match ← pool.get index with
  | .nameAndType name descriptor => pure (← pool.utf8 name, ← pool.utf8 descriptor)
  | _ => throw (.unexpectedConstant index "NameAndType")

/-! ## Resolving entries -/

/-- A field type read from a descriptor text, or `badDescriptor` quoting the text. -/
def checkedFieldType (text : String) : Except ClassError FieldType :=
  (FieldType.parse text).mapError fun err => .badDescriptor s!"{text}: {err.toText}"

/-- A method descriptor read from a text, or `badDescriptor` quoting the text. -/
def checkedMethodDescriptor (text : String) : Except ClassError MethodDescriptor :=
  (MethodDescriptor.parse text).mapError fun err => .badDescriptor s!"{text}: {err.toText}"

/-- A member name read from a text, or `badName`. -/
def checkedName (text : String) : Except ClassError UnqualifiedName :=
  (UnqualifiedName.ofString text).mapError .badName

/-- The class named by a class entry, which must not be an array. -/
def binaryName (pool : ConstantPool) (index : Nat) : Except ClassError BinaryName := do
  (BinaryName.ofString (← pool.classText index)).mapError .badName

/-- The reference type named by a class entry. -/
def refType (pool : ConstantPool) (index : Nat) : Except ClassError RefType := do
  RefType.ofClassText (← pool.classText index)

/-- The member name held by a Utf8 entry. -/
def unqualifiedName (pool : ConstantPool) (index : Nat) : Except ClassError UnqualifiedName := do
  checkedName (← pool.utf8 index)

/-- The field type held by a Utf8 entry. -/
def fieldType (pool : ConstantPool) (index : Nat) : Except ClassError FieldType := do
  checkedFieldType (← pool.utf8 index)

/-- The method descriptor held by a Utf8 entry. -/
def methodDescriptor (pool : ConstantPool) (index : Nat) : Except ClassError MethodDescriptor := do
  checkedMethodDescriptor (← pool.utf8 index)

/-- The literal of an entry that `ldc` can load or that can initialise a field. -/
def literal (pool : ConstantPool) (index : Nat) : Except ClassError Literal := do
  match ← pool.get index with
  | .integer value => pure (.integer value)
  | .float bits => pure (.float bits)
  | .long value => pure (.long value)
  | .double bits => pure (.double bits)
  | .string text => .string <$> pool.utf8 text
  | .classRef _ => .classRef <$> pool.refType index
  | _ => throw (.unexpectedConstant index "loadable constant")

/-- The field named by a field reference entry. -/
def fieldRef (pool : ConstantPool) (index : Nat) : Except ClassError FieldRef := do
  match ← pool.get index with
  | .fieldRef owner member =>
    let (name, descriptor) ← pool.nameAndType member
    let owner ← pool.binaryName owner
    let name ← checkedName name
    let descriptor ← checkedFieldType descriptor
    pure { owner, name, descriptor }
  | _ => throw (.unexpectedConstant index "Fieldref")

/-- The method named by a method or interface method reference entry. -/
def methodRef (pool : ConstantPool) (index : Nat) : Except ClassError MethodRef := do
  match ← pool.get index with
  | .methodRef owner member isInterface =>
    let (name, descriptor) ← pool.nameAndType member
    let owner ← pool.refType owner
    let name ← checkedName name
    let descriptor ← checkedMethodDescriptor descriptor
    pure { owner, name, descriptor, isInterface }
  | _ => throw (.unexpectedConstant index "Methodref")

end ConstantPool

end ClassKit
