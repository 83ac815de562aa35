import ClassKit.Class.Basic

/-!
# Renaming classes

A renaming maps some class names to new ones and leaves the others alone. Renaming a class
renames every reference to a class in it: its own name, its superclass and interfaces, field and
method descriptors, field constants, thrown classes, catch types, and every instruction with a
class operand, array element classes included. Renaming is applied once: a name that a mapping
produces is not looked up again.
-/

namespace ClassKit

namespace Literal

def rename (rename : BinaryName → BinaryName) : Literal → Literal
  | classRef type => classRef (type.map rename)
  | other => other

end Literal

namespace FieldRef

def rename (rename : BinaryName → BinaryName) (ref : FieldRef) : FieldRef :=
  { ref with owner := rename ref.owner, descriptor := ref.descriptor.map rename }

end FieldRef

namespace MethodRef

def rename (rename : BinaryName → BinaryName) (ref : MethodRef) : MethodRef :=
  { ref with owner := ref.owner.map rename, descriptor := ref.descriptor.map rename }

end MethodRef

namespace Instruction

def rename (rename : BinaryName → BinaryName) : Instruction → Instruction
  | ldc literal => ldc (literal.rename rename)
  | field access ref => field access (ref.rename rename)
  | invoke kind ref => invoke kind (ref.rename rename)
  | typeOp op type => typeOp op (type.map rename)
  | multiANewArray type dimensions => multiANewArray (type.map rename) dimensions
  | other => other

end Instruction

namespace Entry

def rename (rename : BinaryName → BinaryName) : Entry → Entry
  | .instruction operation => .instruction (operation.rename rename)
  | other => other

end Entry

namespace Handler

def rename (rename : BinaryName → BinaryName) (handler : Handler) : Handler :=
  { handler with catchType := handler.catchType.map rename }

end Handler

namespace Body

def rename (rename : BinaryName → BinaryName) (body : Body) : Body where
  entries := body.entries.map (Entry.rename rename)
  handlers := body.handlers.map (Handler.rename rename)

end Body

namespace Field

def rename (rename : BinaryName → BinaryName) (field : Field) : Field :=
  { field with descriptor := field.descriptor.map rename,
               constantValue := field.constantValue.map (Literal.rename rename) }

end Field

namespace Method

def rename (rename : BinaryName → BinaryName) (method : Method) : Method :=
  { method with descriptor := method.descriptor.map rename,
                exceptions := method.exceptions.map rename,
                body := method.body.map (Body.rename rename) }

end Method

namespace Class

/-- Renames every class reference of a class. -/
def rename (rename : BinaryName → BinaryName) (cls : Class) : Class where
  major := cls.major
  minor := cls.minor
  flags := cls.flags
  name := rename cls.name
  superName := cls.superName.map rename
  interfaces := cls.interfaces.map rename
  fields := cls.fields.map (Field.rename rename)
  methods := cls.methods.map (Method.rename rename)

end Class

/-- The renaming given by pairs of names: a name with a pair goes to its partner, others stay. -/
def renameBy (mappings : List (BinaryName × BinaryName)) (name : BinaryName) : BinaryName :=
  (mappings.lookup name).getD name

end ClassKit
