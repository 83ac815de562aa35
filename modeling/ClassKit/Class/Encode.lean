import ClassKit.Class.Basic
import ClassKit.Code.Encode

/-!
# Writing a class

A class is written with a fresh constant pool, filled in the order its entries are first needed:
the class, its superclass and interfaces; then each field's name, type and constant; then each
method's name, descriptor, the constants of its code in instruction order, its catch types, and
its thrown classes. An attribute's name enters the pool after its contents.
-/

namespace ClassKit

/-- An attribute with its name added to the pool. -/
def namedAttribute (name : String) (info : List UInt8) : WriteM Attribute := do
  let nameIndex ← WriteM.pool (PoolBuilder.utf8 name)
  pure { nameIndex, info }

namespace Field

/-- The field in the class file format. -/
def encode (field : Field) : WriteM (MemberInfo FieldFlags) := do
  let nameIndex ← WriteM.pool (PoolBuilder.utf8 field.name.text)
  let descriptorIndex ← WriteM.pool (PoolBuilder.utf8 field.descriptor.render)
  let attributes ← match field.constantValue with
    | some literal => do
      let index ← WriteM.pool (PoolBuilder.literal literal)
      pure [← namedAttribute "ConstantValue" (Bytes.u16 index)]
    | none => pure []
  pure { flags := field.flags, nameIndex, descriptorIndex, attributes }

end Field

namespace Method

/-- The method in the class file format. -/
def encode (method : Method) : WriteM (MemberInfo MethodFlags) := do
  let nameIndex ← WriteM.pool (PoolBuilder.utf8 method.name.text)
  let descriptorIndex ← WriteM.pool (PoolBuilder.utf8 method.descriptor.render)
  let code ← match method.body with
    | some body => do
      let code ← body.encode method.parameterSlots
      pure [← namedAttribute "Code" code.bytes]
    | none => pure []
  let thrown ← if method.exceptions.isEmpty then pure [] else do
    let classes ← method.exceptions.mapM fun name => WriteM.pool (PoolBuilder.binaryName name)
    pure [← namedAttribute "Exceptions" (Bytes.counted Bytes.u16 classes)]
  pure { flags := method.flags, nameIndex, descriptorIndex, attributes := code ++ thrown }

end Method

namespace Class

/-- The class in the class file format, with its freshly built pool. -/
def toClassFile (cls : Class) : LogExcept ClassError ClassFile := do
  let write : WriteM (Nat × Option Nat × List Nat × List (MemberInfo FieldFlags) ×
      List (MemberInfo MethodFlags)) := do
    let thisClass ← WriteM.pool (PoolBuilder.binaryName cls.name)
    let superClass ← cls.superName.mapM fun name => WriteM.pool (PoolBuilder.binaryName name)
    let interfaces ← cls.interfaces.mapM fun name => WriteM.pool (PoolBuilder.binaryName name)
    let fields ← cls.fields.mapM Field.encode
    let methods ← cls.methods.mapM Method.encode
    pure (thisClass, superClass, interfaces, fields, methods)
  let ((thisClass, superClass, interfaces, fields, methods), builder) ← write.run {}
  pure { major := cls.major, minor := cls.minor, pool := builder.toPool, flags := cls.flags,
         thisClass, superClass, interfaces, fields, methods, attributes := [] }

/-- The bytes of the class file of a class. -/
def encode (cls : Class) : LogExcept ClassError (List UInt8) :=
  ClassFile.bytes <$> cls.toClassFile

end Class

end ClassKit
