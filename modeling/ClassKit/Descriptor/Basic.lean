import ClassKit.Name

/-!
# Type descriptors

The JVM writes types as descriptors: one letter for each primitive type (`I` for `int`, `J` for
`long`, ...), `Lname;` for a class and a `[` prefix per array dimension. A method descriptor lists
its parameter types in parentheses followed by the return type, or `V` for `void`.

This module holds the types and their rendering; `ClassKit.Descriptor.Parse` reads them back.
-/

namespace ClassKit

/-- The eight primitive types. -/
inductive BaseType where
  | byte | char | double | float | int | long | short | boolean
  deriving DecidableEq, Hashable, Inhabited, Repr

namespace BaseType

/-- Every primitive type, in the order of the table of descriptor letters. -/
def all : List BaseType := [byte, char, double, float, int, long, short, boolean]

/-- The descriptor letter of a primitive type. -/
def letter : BaseType → Char
  | byte => 'B' | char => 'C' | double => 'D' | float => 'F'
  | int => 'I' | long => 'J' | short => 'S' | boolean => 'Z'

/-- The primitive type written with a descriptor letter, if any. -/
def ofLetter? (c : Char) : Option BaseType :=
  all.find? (fun base => base.letter == c)

/-- Operand stack and local variable slots taken by a value: `long` and `double` take two. -/
def width : BaseType → Nat
  | long | double => 2
  | _ => 1

/-- Types that the JVM computes with as `int`. -/
def isIntLike : BaseType → Bool
  | long | float | double => false
  | _ => true

/-- The name of the type as a word (`Int`, `Boolean`, ...). -/
def word : BaseType → String
  | byte => "Byte" | char => "Char" | double => "Double" | float => "Float"
  | int => "Int" | long => "Long" | short => "Short" | boolean => "Boolean"

end BaseType

/-- An array type: `additionalDimensions + 1` dimensions around an element type. -/
structure ArrayType (α : Type) where
  additionalDimensions : Nat
  element : α
  deriving DecidableEq, Hashable, Inhabited, Repr

namespace ArrayType

/-- Number of dimensions, at least one. -/
def dimensions {α : Type} (array : ArrayType α) : Nat := array.additionalDimensions + 1

/-- The same array with its element transformed. -/
def map {α β : Type} (f : α → β) (array : ArrayType α) : ArrayType β :=
  ⟨array.additionalDimensions, f array.element⟩

/-- The array with one dimension more. -/
def wrap {α : Type} (array : ArrayType α) : ArrayType α :=
  ⟨array.additionalDimensions + 1, array.element⟩

end ArrayType

/-- A reference type: a class, an array of class instances, or an array of primitives. -/
inductive RefType where
  | object (name : BinaryName)
  | objectArray (array : ArrayType BinaryName)
  | primitiveArray (array : ArrayType BaseType)
  deriving DecidableEq, Hashable, Inhabited, Repr

/-- The type of a field, a parameter or a return value. -/
inductive FieldType where
  | base (type : BaseType)
  | ref (type : RefType)
  deriving DecidableEq, Hashable, Inhabited, Repr

/-- Parameter types and return type (`none` for `void`) of a method. -/
structure MethodDescriptor where
  parameters : List FieldType
  returnType : Option FieldType
  deriving DecidableEq, Hashable, Inhabited, Repr

/-! ## Rendering -/

namespace BaseType

def render (base : BaseType) : String := base.letter.toString

end BaseType

namespace BinaryName

/-- A class type as a descriptor: `L`, the name, `;`. -/
def render (name : BinaryName) : String := "L" ++ name.text ++ ";"

end BinaryName

/-- `n` opening brackets. -/
def brackets (n : Nat) : String := String.ofList (List.replicate n '[')

namespace RefType

def render : RefType → String
  | object name => name.render
  | objectArray array => brackets array.dimensions ++ array.element.render
  | primitiveArray array => brackets array.dimensions ++ array.element.render

/-- The same type with every class name transformed. -/
def map (f : BinaryName → BinaryName) : RefType → RefType
  | object name => object (f name)
  | objectArray array => objectArray (array.map f)
  | primitiveArray array => primitiveArray array

/-- Text of a class constant for this type: the bare name for a class, the descriptor for an array. -/
def classConstantText : RefType → String
  | object name => name.text
  | other => other.render

end RefType

namespace FieldType

def render : FieldType → String
  | base type => type.render
  | ref type => type.render

def width : FieldType → Nat
  | base type => type.width
  | ref _ => 1

def map (f : BinaryName → BinaryName) : FieldType → FieldType
  | base type => base type
  | ref type => ref (type.map f)

def object (name : BinaryName) : FieldType := ref (.object name)
def int : FieldType := base .int
def long : FieldType := base .long
def float : FieldType := base .float
def double : FieldType := base .double
def boolean : FieldType := base .boolean

end FieldType

namespace RefType

/-- The type of arrays of `element`. -/
def arrayOf : FieldType → RefType
  | .base type => primitiveArray ⟨0, type⟩
  | .ref (object name) => objectArray ⟨0, name⟩
  | .ref (objectArray array) => objectArray array.wrap
  | .ref (primitiveArray array) => primitiveArray array.wrap

end RefType

namespace FieldType

/-- The type of arrays of `element`. -/
def arrayOf (element : FieldType) : FieldType := ref (RefType.arrayOf element)

end FieldType

namespace MethodDescriptor

def render (descriptor : MethodDescriptor) : String :=
  "(" ++ String.join (descriptor.parameters.map FieldType.render) ++ ")" ++
    match descriptor.returnType with
    | some type => type.render
    | none => "V"

def map (f : BinaryName → BinaryName) (descriptor : MethodDescriptor) : MethodDescriptor :=
  ⟨descriptor.parameters.map (FieldType.map f), descriptor.returnType.map (FieldType.map f)⟩

/-- Local variable slots taken by the arguments, counting `this` when `hasThis` holds. -/
def parameterSlots (descriptor : MethodDescriptor) (hasThis : Bool) : Nat :=
  (if hasThis then 1 else 0) + (descriptor.parameters.map FieldType.width).foldr (· + ·) 0

end MethodDescriptor

end ClassKit
