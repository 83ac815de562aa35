import ClassKit.Pool.Table
import ClassKit.Access

/-!
# The class file format

A class file, at the level of the format: a header, the constant pool, and members whose names,
types and attributes are pool indices. Attributes are kept as raw bytes; the few this library
understands (`Code`, `ConstantValue` and `Exceptions`) are read from those bytes on demand, and
an attribute must be consumed exactly by its reader.

Reading checks the magic number, accepts major versions 45 to 50 (the versions that need no stack
map frames), and rejects bytes left after the class.
-/

namespace ClassKit

/-- An attribute: the index of its name and its body. -/
structure Attribute where
  nameIndex : Nat
  info : List UInt8
  deriving Inhabited

/-- A field or a method in the format, with access flags of type `φ`. -/
structure MemberInfo (φ : Type) where
  flags : φ
  nameIndex : Nat
  descriptorIndex : Nat
  attributes : List Attribute

/-- A row of a method's exception table, in byte offsets; a catch index 0 catches everything. -/
structure HandlerRow where
  startPc : Nat
  endPc : Nat
  handlerPc : Nat
  catchIndex : Nat

/-- The body of a `Code` attribute. -/
structure CodeAttribute where
  maxStack : Nat
  maxLocals : Nat
  code : List UInt8
  handlers : List HandlerRow
  attributes : List Attribute

/-- A whole class file. -/
structure ClassFile where
  major : Nat
  minor : Nat
  pool : ConstantPool
  flags : ClassFlags
  thisClass : Nat
  superClass : Option Nat
  interfaces : List Nat
  fields : List (MemberInfo FieldFlags)
  methods : List (MemberInfo MethodFlags)
  attributes : List Attribute

/-! ## Writing -/

namespace Attribute

def bytes (entry : Attribute) : List UInt8 :=
  Bytes.u16 entry.nameIndex ++ Bytes.u32 entry.info.length ++ entry.info

end Attribute

namespace MemberInfo

def bytes {φ : Type} (flagBits : φ → Nat) (member : MemberInfo φ) : List UInt8 :=
  Bytes.u16 (flagBits member.flags) ++ Bytes.u16 member.nameIndex ++
    Bytes.u16 member.descriptorIndex ++ Bytes.counted Attribute.bytes member.attributes

end MemberInfo

namespace HandlerRow

def bytes (row : HandlerRow) : List UInt8 :=
  Bytes.u16 row.startPc ++ Bytes.u16 row.endPc ++ Bytes.u16 row.handlerPc ++ Bytes.u16 row.catchIndex

end HandlerRow

namespace CodeAttribute

def bytes (body : CodeAttribute) : List UInt8 :=
  Bytes.u16 body.maxStack ++ Bytes.u16 body.maxLocals ++ Bytes.u32 body.code.length ++ body.code ++
    Bytes.counted HandlerRow.bytes body.handlers ++ Bytes.counted Attribute.bytes body.attributes

end CodeAttribute

namespace ClassFile

/-- The four bytes every class file starts with. -/
def magic : Nat := 0xcafebabe

def bytes (file : ClassFile) : List UInt8 :=
  Bytes.u32 magic ++ Bytes.u16 file.minor ++ Bytes.u16 file.major ++ file.pool.bytes ++
    Bytes.u16 file.flags.bits ++ Bytes.u16 file.thisClass ++ Bytes.u16 (file.superClass.getD 0) ++
    Bytes.counted Bytes.u16 file.interfaces ++
    Bytes.counted (MemberInfo.bytes FieldFlags.bits) file.fields ++
    Bytes.counted (MemberInfo.bytes MethodFlags.bits) file.methods ++
    Bytes.counted Attribute.bytes file.attributes

end ClassFile

/-! ## Reading -/

namespace Attribute

def read : ByteReader Attribute := do
  let nameIndex ← ByteReader.u16
  let length ← ByteReader.u32
  let info ← ByteReader.take length
  pure { nameIndex, info }

/-- Reads the body with `reader`, which must consume all of it; any failure is reported as a
malformed attribute called `name`. -/
def parse {α : Type} (entry : Attribute) (name : String) (reader : ByteReader α) :
    Except ClassError α :=
  match reader.run entry.info with
  | .ok (value, []) => .ok value
  | _ => .error (.malformedAttribute name)

end Attribute

namespace MemberInfo

def read {φ : Type} (ofBits : Nat → φ) : ByteReader (MemberInfo φ) := do
  let flags ← ByteReader.u16
  let nameIndex ← ByteReader.u16
  let descriptorIndex ← ByteReader.u16
  let attributes ← ByteReader.counted Attribute.read
  pure { flags := ofBits flags, nameIndex, descriptorIndex, attributes }

end MemberInfo

namespace HandlerRow

def read : ByteReader HandlerRow := do
  let startPc ← ByteReader.u16
  let endPc ← ByteReader.u16
  let handlerPc ← ByteReader.u16
  let catchIndex ← ByteReader.u16
  pure { startPc, endPc, handlerPc, catchIndex }

end HandlerRow

namespace CodeAttribute

def read : ByteReader CodeAttribute := do
  let maxStack ← ByteReader.u16
  let maxLocals ← ByteReader.u16
  let length ← ByteReader.u32
  let code ← ByteReader.take length
  let handlers ← ByteReader.counted HandlerRow.read
  let attributes ← ByteReader.counted Attribute.read
  pure { maxStack, maxLocals, code, handlers, attributes }

end CodeAttribute

namespace ClassFile

/-- Whether a major version can be read and written again without stack map frames. -/
def supportsMajor (major : Nat) : Bool := 45 ≤ major && major ≤ 50

/-- Reads the parts of a class file after the header. -/
def readBody (major minor : Nat) : ByteReader ClassFile := do
  let pool ← ConstantPool.read
  let flags ← ByteReader.u16
  let thisClass ← ByteReader.u16
  let superClass ← ByteReader.u16
  let interfaces ← ByteReader.counted ByteReader.u16
  let fields ← ByteReader.counted (MemberInfo.read FieldFlags.ofBits)
  let methods ← ByteReader.counted (MemberInfo.read MethodFlags.ofBits)
  let attributes ← ByteReader.counted Attribute.read
  pure { major, minor, pool, flags := ClassFlags.ofBits flags, thisClass,
         superClass := if superClass == 0 then none else some superClass,
         interfaces, fields, methods, attributes }

/-- Reads a whole class file. -/
def read (bytes : List UInt8) : Except ClassError ClassFile := do
  let (found, rest) ← ByteReader.u32.run bytes
  if found != magic then throw (.badMagic found)
  let ((minor, major), rest) ← (do
    let minor ← ByteReader.u16
    let major ← ByteReader.u16
    pure (minor, major) : ByteReader (Nat × Nat)).run rest
  if !supportsMajor major then throw (.unsupportedVersion major minor)
  let (file, rest) ← (readBody major minor).run rest
  if rest.length != 0 then throw (.trailingBytes rest.length)
  pure file

end ClassFile

end ClassKit
