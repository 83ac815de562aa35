import ClassKit.Code.Instruction

/-!
# Opcodes

The opcode of every instruction without operands, and the fixed parts of the others. Reading and
writing share these tables, so an instruction without operands always reads back as itself.
-/

namespace ClassKit

namespace ElementType

/-- Offset of the element type within the array load and array store opcodes. -/
def code : ElementType → Nat
  | int => 0 | long => 1 | float => 2 | double => 3 | reference => 4 | byte => 5 | char => 6
  | short => 7

end ElementType

namespace SlotType

/-- Offset of the slot type within the load, store and return opcodes. -/
def code : SlotType → Nat
  | int => 0 | long => 1 | float => 2 | double => 3 | reference => 4

end SlotType

namespace NumType

/-- Offset of the number type within the arithmetic opcodes. -/
def code : NumType → Nat
  | int => 0 | long => 1 | float => 2 | double => 3

end NumType

namespace Conversion

/-- The opcode of a conversion. -/
def opcode : Conversion → Nat
  | i2l => 0x85 | i2f => 0x86 | i2d => 0x87 | l2i => 0x88 | l2f => 0x89 | l2d => 0x8a
  | f2i => 0x8b | f2l => 0x8c | f2d => 0x8d | d2i => 0x8e | d2l => 0x8f | d2f => 0x90
  | i2b => 0x91 | i2c => 0x92 | i2s => 0x93

end Conversion

namespace StackOp

/-- The opcode of a stack instruction. -/
def opcode : StackOp → Nat
  | pop => 0x57 | pop2 => 0x58 | dup => 0x59 | dupX1 => 0x5a | dupX2 => 0x5b | dup2 => 0x5c
  | dup2X1 => 0x5d | dup2X2 => 0x5e | swap => 0x5f

end StackOp

namespace BaseType

/-- The array type code of `newarray`. -/
def arrayCode : BaseType → Nat
  | boolean => 4 | char => 5 | float => 6 | double => 7 | byte => 8 | short => 9 | int => 10
  | long => 11

/-- The base type with an array type code. -/
def ofArrayCode? : Nat → Option BaseType
  | 4 => some boolean | 5 => some char | 6 => some float | 7 => some double | 8 => some byte
  | 9 => some short | 10 => some int | 11 => some long | _ => none

end BaseType

namespace Condition

/-- Offset of the condition within the conditional branch opcodes. -/
def code : Condition → Nat
  | eq => 0 | ne => 1 | lt => 2 | ge => 3 | gt => 4 | le => 5

end Condition

namespace Equality

def code : Equality → Nat
  | eq => 0 | ne => 1

end Equality

namespace Instruction

/-- The opcode of an instruction without operands. -/
def simpleOpcode? : Instruction → Option Nat
  | nop => some 0x00
  | aconstNull => some 0x01
  | iconst value => some (0x03 + value.toInt).toNat
  | lconst value => some (0x09 + value.val)
  | fconst value => some (0x0b + value.val)
  | dconst value => some (0x0e + value.val)
  | arrayLoad element => some (0x2e + element.code)
  | arrayStore element => some (0x4f + element.code)
  | stack op => some op.opcode
  | arith op type =>
    let base := match op with
      | .add => 0x60 | .sub => 0x64 | .mul => 0x68 | .div => 0x6c | .rem => 0x70
    some (base + type.code)
  | neg type => some (0x74 + type.code)
  | shift kind isLong =>
    let base := match kind with
      | .left => 0x78 | .arithmeticRight => 0x7a | .logicalRight => 0x7c
    some (base + if isLong then 1 else 0)
  | bitwise op isLong =>
    let base := match op with
      | .and => 0x7e | .or => 0x80 | .xor => 0x82
    some (base + if isLong then 1 else 0)
  | convert conversion => some conversion.opcode
  | lcmp => some 0x94
  | fcmp nan => some (if nan == .l then 0x95 else 0x96)
  | dcmp nan => some (if nan == .l then 0x97 else 0x98)
  | arrayLength => some 0xbe
  | monitorEnter => some 0xc2
  | monitorExit => some 0xc3
  | _ => none

/-- Every instruction without operands. -/
def simple : List Instruction :=
  [nop, aconstNull] ++
  [.minusOne, .zero, .one, .two, .three, .four, .five].map iconst ++
  [lconst 0, lconst 1, fconst 0, fconst 1, fconst 2, dconst 0, dconst 1] ++
  [.int, .long, .float, .double, .reference, .byte, .char, .short].map arrayLoad ++
  [.int, .long, .float, .double, .reference, .byte, .char, .short].map arrayStore ++
  [.pop, .pop2, .dup, .dupX1, .dupX2, .dup2, .dup2X1, .dup2X2, .swap].map stack ++
  ([.add, .sub, .mul, .div, .rem].flatMap fun op =>
    [.int, .long, .float, .double].map (arith op)) ++
  [.int, .long, .float, .double].map neg ++
  ([.left, .arithmeticRight, .logicalRight].flatMap fun kind => [shift kind false, shift kind true]) ++
  ([.and, .or, .xor].flatMap fun op => [bitwise op false, bitwise op true]) ++
  [.i2l, .i2f, .i2d, .l2i, .l2f, .l2d, .f2i, .f2l, .f2d, .d2i, .d2l, .d2f, .i2b, .i2c, .i2s].map
    convert ++
  [lcmp, fcmp .l, fcmp .g, dcmp .l, dcmp .g, arrayLength, monitorEnter, monitorExit]

/-- The instruction without operands of each opcode, indexed by opcode. -/
def simpleByOpcode : Array (Option Instruction) :=
  simple.foldl (fun table instruction =>
    match instruction.simpleOpcode? with
    | some opcode => table.set! opcode (some instruction)
    | none => table) (Array.replicate 256 none)

/-- The instruction without operands that an opcode stands for. -/
def ofSimpleOpcode? (opcode : Nat) : Option Instruction :=
  simpleByOpcode[opcode]?.join

end Instruction

namespace Branch

/-- The opcode of a branch without targets. -/
def terminalOpcode? {τ : Type} : Branch τ → Option Nat
  | returnValue type => some (0xac + type.code)
  | returnVoid => some 0xb1
  | athrow => some 0xbf
  | _ => none

end Branch

end ClassKit
