import ClassKit.Code.Body
import ClassKit.Access
import ClassKit.Error

/-!
# Classes

A class as this library edits it: names and descriptors are checked values, constants are
literals, and method bodies are entries with labels. Pool indices and byte offsets appear only
in the class file format.

Fields and methods are added one at a time; a second field with the same name and type, or a
second method with the same name and descriptor, is refused.
-/

namespace ClassKit

/-- A field, with the literal it is initialised to, if any. -/
structure Field where
  flags : FieldFlags
  name : UnqualifiedName
  descriptor : FieldType
  constantValue : Option Literal := none
  deriving Inhabited

/-- A method, with the classes it declares it throws and its body, if it has one. -/
structure Method where
  flags : MethodFlags
  name : UnqualifiedName
  descriptor : MethodDescriptor
  exceptions : List BinaryName := []
  body : Option Body := none
  deriving Inhabited

/-- A class. A class without a superclass has `superName = none`. -/
structure Class where
  major : Nat
  minor : Nat
  flags : ClassFlags
  name : BinaryName
  superName : Option BinaryName := some BinaryName.object
  interfaces : List BinaryName := []
  fields : List Field := []
  methods : List Method := []
  deriving Inhabited

namespace Method

/-- Whether the method belongs to the class rather than to an instance. -/
def isStatic (method : Method) : Bool := method.flags.isStatic

/-- Local variable slots taken by the parameters, the receiver of an instance method included. -/
def parameterSlots (method : Method) : Nat := method.descriptor.parameterSlots !method.isStatic

/-- Whether the method has this name and descriptor text. -/
def hasSignature (method : Method) (name descriptor : String) : Bool :=
  method.name.text == name && method.descriptor.render == descriptor

end Method

namespace Class

/-- The first method with this name and descriptor text. -/
def findMethod? (cls : Class) (name descriptor : String) : Option Method :=
  cls.methods.find? (·.hasSignature name descriptor)

/-- Adds a method at the end, unless one with the same name and descriptor is there. -/
def addMethod (cls : Class) (method : Method) : Except ClassError Class :=
  let descriptor := method.descriptor.render
  if (cls.findMethod? method.name.text descriptor).isSome then
    .error (.duplicateMethod method.name.text descriptor)
  else .ok { cls with methods := cls.methods ++ [method] }

/-- Adds a field at the end, unless one with the same name and type is there. -/
def addField (cls : Class) (field : Field) : Except ClassError Class :=
  if cls.fields.any (fun other => other.name == field.name && other.descriptor == field.descriptor) then
    .error (.duplicateField field.name.text field.descriptor.render)
  else .ok { cls with fields := cls.fields ++ [field] }

end Class

end ClassKit
