import ClassKit.Class.Basic
import ClassKit.Code.Decode
import ClassKit.Log

/-!
# Reading a class

A class file becomes a `Class` by resolving its pool indices. Of the attributes, a field keeps
its `ConstantValue` and a method its `Code` and `Exceptions`; a repeated attribute replaces the
earlier one, and every other attribute is dropped with a debug record naming it.

The name of a dropped class attribute is looked up only to be logged: with debug records off it
is never looked up, so it cannot make reading fail.
-/

namespace ClassKit

/-- The target of the records of reading and writing classes. -/
def classTarget : String := "classpatch::jvm::model::class"

namespace Field

/-- Reads a field of a class file. -/
def decode (pool : ConstantPool) (info : MemberInfo FieldFlags) : LogExcept ClassError Field := do
  let name ← liftExcept (pool.unqualifiedName info.nameIndex)
  let descriptor ← liftExcept (pool.fieldType info.descriptorIndex)
  let constantValue ← info.attributes.foldlM (fun constantValue entry => do
    let attributeName ← liftExcept (pool.utf8 entry.nameIndex)
    if attributeName == "ConstantValue" then
      let index ← liftExcept (entry.parse "ConstantValue" ByteReader.u16)
      some <$> liftExcept (pool.literal index)
    else
      emit .debug "classpatch::jvm::model::field" s!"Dropping attribute {attributeName} of field {name.text}"
      pure constantValue) none
  pure { flags := info.flags, name, descriptor, constantValue }

end Field

namespace Method

/-- Reads a method of a class file. -/
def decode (pool : ConstantPool) (info : MemberInfo MethodFlags) : LogExcept ClassError Method := do
  let name ← liftExcept (pool.unqualifiedName info.nameIndex)
  let descriptor ← liftExcept (pool.methodDescriptor info.descriptorIndex)
  let (exceptions, body) ← info.attributes.foldlM (fun (exceptions, body) entry => do
    let attributeName ← liftExcept (pool.utf8 entry.nameIndex)
    if attributeName == "Code" then
      let raw ← liftExcept (entry.parse "Code" CodeAttribute.read)
      let decoded ← liftExcept (Body.decode pool raw)
      pure (exceptions, some decoded)
    else if attributeName == "Exceptions" then
      let indices ← liftExcept (entry.parse "Exceptions" (ByteReader.counted ByteReader.u16))
      let classes ← liftExcept (indices.mapM pool.binaryName)
      pure (classes, body)
    else
      emit .debug "classpatch::jvm::model::method"
        s!"Dropping attribute {attributeName} of method {name.text}{descriptor.render}"
      pure (exceptions, body)) ([], none)
  pure { flags := info.flags, name, descriptor, exceptions, body }

end Method

namespace Class

/-- Reads a class from the bytes of its class file. -/
def decode (bytes : List UInt8) : LogExcept ClassError Class := do
  let file ← liftExcept (ClassFile.read bytes)
  let pool := file.pool
  let name ← liftExcept (pool.binaryName file.thisClass)
  let superName ← liftExcept (file.superClass.mapM pool.binaryName)
  let interfaces ← liftExcept (file.interfaces.mapM pool.binaryName)
  let fields ← file.fields.mapM (Field.decode pool)
  let methods ← file.methods.mapM (Method.decode pool)
  for entry in file.attributes do
    if ← logging .debug then
      let attributeName ← liftExcept (pool.utf8 entry.nameIndex)
      emit .debug classTarget s!"Dropping attribute {attributeName} of class {name.text}"
  pure { major := file.major, minor := file.minor, flags := file.flags, name, superName,
         interfaces, fields, methods }

end Class

end ClassKit
