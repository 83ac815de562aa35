import ClassKit.Descriptor.Basic
import ClassKit.Code.Label

/-!
# Instructions

The instruction set of the JVM, grouped by what instructions do rather than by opcode: the four
`iload`, `lload`, ... forms are one `load` with a slot type, the twenty arithmetic opcodes one
`arith` with an operation and a number type, and so on. Encoding details are not part of the
model: short forms (`iload_0`), `wide`, `ldc_w` and `goto_w` are chosen when a body is encoded.

Instructions that may transfer control elsewhere (conditional branches, jumps, switches, returns
and `athrow`) form the separate type `Branch`, parametrised by how targets are written: labels in
an editable body, byte offsets while decoding and encoding.

A method body is a list of `Entry`s: labels, plain instructions and branches.
-/

namespace ClassKit

/-- A constant that `ldc` can push. Floats are kept as their bit patterns. -/
inductive Literal where
  | integer (value : Int32)
  | float (bits : UInt32)
  | long (value : Int64)
  | double (bits : UInt64)
  | string (text : String)
  | classRef (type : RefType)
  deriving DecidableEq, Hashable, Inhabited, Repr

namespace Literal

/-- Stack slots taken by the value: two for `long` and `double`. -/
def width : Literal → Nat
  | long _ | double _ => 2
  | _ => 1

end Literal

/-- A field named by its class, its name and its type. -/
structure FieldRef where
  owner : BinaryName
  name : UnqualifiedName
  descriptor : FieldType
  deriving DecidableEq, Hashable, Inhabited, Repr

/-- A method named by its class (possibly an array type), its name and its descriptor.
`isInterface` records whether the pool entry is an interface method reference. -/
structure MethodRef where
  owner : RefType
  name : UnqualifiedName
  descriptor : MethodDescriptor
  isInterface : Bool
  deriving DecidableEq, Hashable, Inhabited, Repr

/-- The constants `-1` to `5` that have their own `iconst` instruction. -/
inductive SmallInt where
  | minusOne | zero | one | two | three | four | five
  deriving DecidableEq, Hashable, Inhabited, Repr

namespace SmallInt

def toInt : SmallInt → Int
  | minusOne => -1 | zero => 0 | one => 1 | two => 2 | three => 3 | four => 4 | five => 5

/-- The small constant with this value, if it is one. -/
def ofInt? : Int → Option SmallInt
  | -1 => some minusOne
  | 0 => some zero
  | 1 => some one
  | 2 => some two
  | 3 => some three
  | 4 => some four
  | 5 => some five
  | _ => none

end SmallInt

/-- Types that local variable slots and returns are accessed at. -/
inductive SlotType where
  | int | long | float | double | reference
  deriving DecidableEq, Hashable, Inhabited, Repr

namespace SlotType

def width : SlotType → Nat
  | long | double => 2
  | _ => 1

end SlotType

/-- Element types of the array load and store instructions. -/
inductive ElementType where
  | int | long | float | double | reference | byte | char | short
  deriving DecidableEq, Hashable, Inhabited, Repr

namespace ElementType

def width : ElementType → Nat
  | long | double => 2
  | _ => 1

end ElementType

/-- The four types arithmetic works on. -/
inductive NumType where
  | int | long | float | double
  deriving DecidableEq, Hashable, Inhabited, Repr

namespace NumType

def width : NumType → Nat
  | long | double => 2
  | _ => 1

end NumType

/-- Arithmetic operations with two operands. -/
inductive ArithOp where
  | add | sub | mul | div | rem
  deriving DecidableEq, Hashable, Inhabited, Repr

/-- Bitwise operations on integers. -/
inductive BitOp where
  | and | or | xor
  deriving DecidableEq, Hashable, Inhabited, Repr

/-- Directions of shifts. -/
inductive ShiftKind where
  | left | logicalRight | arithmeticRight
  deriving DecidableEq, Hashable, Inhabited, Repr

/-- Whether an operation works on `int` (`false`) or on `long` (`true`). -/
abbrev IsLong := Bool

/-- The fifteen conversions between primitive types. -/
inductive Conversion where
  | i2l | i2f | i2d | l2i | l2f | l2d | f2i | f2l | f2d | d2i | d2l | d2f | i2b | i2c | i2s
  deriving DecidableEq, Hashable, Inhabited, Repr

/-- The untyped operand stack instructions. -/
inductive StackOp where
  | pop | pop2 | dup | dupX1 | dupX2 | dup2 | dup2X1 | dup2X2 | swap
  deriving DecidableEq, Hashable, Inhabited, Repr

/-- What a floating-point comparison yields when an operand is NaN: `l` gives -1, `g` gives 1. -/
inductive NaNResult where
  | l | g
  deriving DecidableEq, Hashable, Inhabited, Repr

/-- Field accesses: static or on an instance, reading or writing. -/
inductive FieldAccess where
  | getStatic | putStatic | getField | putField
  deriving DecidableEq, Hashable, Inhabited, Repr

/-- How a method is dispatched. -/
inductive InvokeKind where
  | virtual | special | static | interface
  deriving DecidableEq, Hashable, Inhabited, Repr

/-- Instructions with a class operand and one result. -/
inductive TypeOp where
  | new | aNewArray | checkCast | instanceOf
  deriving DecidableEq, Hashable, Inhabited, Repr

/-- An instruction that always continues with the next one (`ret` aside, which returns from a
subroutine). -/
inductive Instruction where
  | nop
  | aconstNull
  | iconst (value : SmallInt)
  | lconst (value : Fin 2)
  | fconst (value : Fin 3)
  | dconst (value : Fin 2)
  | bipush (value : Int8)
  | sipush (value : Int16)
  | ldc (literal : Literal)
  | load (type : SlotType) (slot : UInt16)
  | store (type : SlotType) (slot : UInt16)
  | iinc (slot : UInt16) (amount : Int16)
  | ret (slot : UInt16)
  | arrayLoad (element : ElementType)
  | arrayStore (element : ElementType)
  | stack (op : StackOp)
  | arith (op : ArithOp) (type : NumType)
  | neg (type : NumType)
  | shift (kind : ShiftKind) (isLong : IsLong)
  | bitwise (op : BitOp) (isLong : IsLong)
  | convert (conversion : Conversion)
  | lcmp
  | fcmp (nan : NaNResult)
  | dcmp (nan : NaNResult)
  | field (access : FieldAccess) (ref : FieldRef)
  | invoke (kind : InvokeKind) (ref : MethodRef)
  | typeOp (op : TypeOp) (type : RefType)
  | newArray (element : BaseType)
  | arrayLength
  | monitorEnter
  | monitorExit
  | multiANewArray (type : RefType) (dimensions : UInt8)
  deriving DecidableEq, Hashable, Inhabited, Repr

/-- Conditions comparing with zero or between two integers. -/
inductive Condition where
  | eq | ne | lt | ge | gt | le
  deriving DecidableEq, Hashable, Inhabited, Repr

namespace Condition

/-- The opposite condition. -/
def negate : Condition → Condition
  | eq => ne | ne => eq | lt => ge | ge => lt | gt => le | le => gt

end Condition

/-- Conditions on references: equal or not. -/
inductive Equality where
  | eq | ne
  deriving DecidableEq, Hashable, Inhabited, Repr

namespace Equality

def negate : Equality → Equality
  | eq => ne | ne => eq

end Equality

/-- An instruction that may continue somewhere other than the next one. Targets have type `τ`. -/
inductive Branch (τ : Type) where
  | ifZero (condition : Condition) (target : τ)
  | ifICmp (condition : Condition) (target : τ)
  | ifACmp (condition : Equality) (target : τ)
  | ifNull (condition : Equality) (target : τ)
  | goto (target : τ)
  | jsr (target : τ)
  | tableSwitch (default : τ) (low : Int32) (targets : List τ)
  | lookupSwitch (default : τ) (pairs : List (Int32 × τ))
  | returnValue (type : SlotType)
  | returnVoid
  | athrow
  deriving DecidableEq, Hashable, Inhabited, Repr

/-- An entry of a method body. -/
inductive Entry where
  | label (label : Label)
  | instruction (instruction : Instruction)
  | branch (branch : Branch Label)
  deriving DecidableEq, Hashable, Inhabited, Repr

/-! ## Properties of instructions -/

namespace StackOp

/-- Stack slots popped by an untyped stack instruction, and pushed back. -/
def effect : StackOp → Nat × Nat
  | .pop => (1, 0) | .pop2 => (2, 0) | .dup => (1, 2) | .dupX1 => (2, 3) | .dupX2 => (3, 4)
  | .dup2 => (2, 4) | .dup2X1 => (3, 5) | .dup2X2 => (4, 6) | .swap => (2, 2)

end StackOp

namespace Conversion

/-- Stack slots popped and pushed by a conversion. -/
def effect : Conversion → Nat × Nat
  | .i2l | .i2d | .f2l | .f2d => (1, 2)
  | .i2f | .f2i | .i2b | .i2c | .i2s => (1, 1)
  | .l2i | .l2f | .d2i | .d2f => (2, 1)
  | .l2d | .d2l => (2, 2)

end Conversion

namespace Instruction

/-- The shortest instruction pushing an `int` constant. -/
def pushInt (value : Int32) : Instruction :=
  match SmallInt.ofInt? value.toInt with
  | some small => iconst small
  | none =>
    if -128 ≤ value.toInt && value.toInt ≤ 127 then bipush (Int8.ofInt value.toInt)
    else if -32768 ≤ value.toInt && value.toInt ≤ 32767 then sipush (Int16.ofInt value.toInt)
    else ldc (.integer value)

/-- The `int` constant pushed, if the instruction pushes one. -/
def intConstant? : Instruction → Option Int32
  | iconst value => some (Int32.ofInt value.toInt)
  | bipush value => some value.toInt32
  | sipush value => some value.toInt32
  | ldc (.integer value) => some value
  | _ => none

/-- The local slot read or written, with the number of slots touched. -/
def localSlot? : Instruction → Option (UInt16 × Nat)
  | load type slot | store type slot => some (slot, type.width)
  | iinc slot _ | ret slot => some (slot, 1)
  | _ => none

/-- Operand stack slots popped, then pushed; `long` and `double` count twice. -/
def stackEffect : Instruction → Nat × Nat
  | nop | iinc _ _ | ret _ => (0, 0)
  | aconstNull | iconst _ | fconst _ | bipush _ | sipush _ => (0, 1)
  | lconst _ | dconst _ => (0, 2)
  | ldc literal => (0, literal.width)
  | load type _ => (0, type.width)
  | store type _ => (type.width, 0)
  | arrayLoad element => (2, element.width)
  | arrayStore element => (2 + element.width, 0)
  | stack op => op.effect
  | arith _ type => (2 * type.width, type.width)
  | neg type => (type.width, type.width)
  | shift _ isLong => if isLong then (3, 2) else (2, 1)
  | bitwise _ isLong => if isLong then (4, 2) else (2, 1)
  | convert conversion => conversion.effect
  | lcmp | dcmp _ => (4, 1)
  | fcmp _ => (2, 1)
  | field .getStatic ref => (0, ref.descriptor.width)
  | field .putStatic ref => (ref.descriptor.width, 0)
  | field .getField ref => (1, ref.descriptor.width)
  | field .putField ref => (1 + ref.descriptor.width, 0)
  | invoke kind ref =>
    (ref.descriptor.parameterSlots (kind != .static),
      (ref.descriptor.returnType.map FieldType.width).getD 0)
  | typeOp .new _ => (0, 1)
  | typeOp _ _ | newArray _ | arrayLength => (1, 1)
  | monitorEnter | monitorExit => (1, 0)
  | multiANewArray _ dimensions => (dimensions.toNat, 1)

end Instruction

namespace Branch

variable {τ υ : Type}

/-- Whether execution may continue with the next entry. A `jsr` does: the subroutine returns
there. -/
def fallsThrough : Branch τ → Bool
  | goto _ | tableSwitch .. | lookupSwitch .. | returnValue _ | returnVoid | athrow => false
  | _ => true

/-- Every explicit target, the default of a switch first. -/
def targets : Branch τ → List τ
  | ifZero _ target | ifICmp _ target | ifACmp _ target | ifNull _ target
  | goto target | jsr target => [target]
  | tableSwitch default _ targets => default :: targets
  | lookupSwitch default pairs => default :: pairs.map Prod.snd
  | returnValue _ | returnVoid | athrow => []

/-- Operand stack slots popped. -/
def stackPops : Branch τ → Nat
  | ifZero .. | ifNull .. | tableSwitch .. | lookupSwitch .. | athrow => 1
  | ifICmp .. | ifACmp .. => 2
  | returnValue type => type.width
  | goto _ | jsr _ | returnVoid => 0

/-- The same branch with every target transformed, failing if a target does. -/
def mapM {ε : Type} (f : τ → Except ε υ) : Branch τ → Except ε (Branch υ)
  | ifZero condition target => (ifZero condition ·) <$> f target
  | ifICmp condition target => (ifICmp condition ·) <$> f target
  | ifACmp condition target => (ifACmp condition ·) <$> f target
  | ifNull condition target => (ifNull condition ·) <$> f target
  | goto target => goto <$> f target
  | jsr target => jsr <$> f target
  | tableSwitch default low targets => do
    let default ← f default
    let targets ← targets.mapM f
    pure (tableSwitch default low targets)
  | lookupSwitch default pairs => do
    let default ← f default
    let pairs ← pairs.mapM fun (key, target) => (key, ·) <$> f target
    pure (lookupSwitch default pairs)
  | returnValue type => pure (returnValue type)
  | returnVoid => pure returnVoid
  | athrow => pure athrow

/-- The same branch with every target transformed. -/
def map (f : τ → υ) : Branch τ → Branch υ
  | ifZero condition target => ifZero condition (f target)
  | ifICmp condition target => ifICmp condition (f target)
  | ifACmp condition target => ifACmp condition (f target)
  | ifNull condition target => ifNull condition (f target)
  | goto target => goto (f target)
  | jsr target => jsr (f target)
  | tableSwitch default low targets => tableSwitch (f default) low (targets.map f)
  | lookupSwitch default pairs => lookupSwitch (f default) (pairs.map fun (key, t) => (key, f t))
  | returnValue type => returnValue type
  | returnVoid => returnVoid
  | athrow => athrow

end Branch

namespace Entry

def isLabel : Entry → Bool
  | label _ => true
  | _ => false

end Entry

end ClassKit
