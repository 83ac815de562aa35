import ClassKit.Code.Instruction
import ClassKit.Text.Decimal
import ClassKit.Text.Quoted

/-!
# Text of instructions

Listings, warnings and verification failures show body entries as text: a label as `l3:`, and
an instruction or a branch indented by four spaces. Member references read `owner.name : type`
for fields and `owner.name(descriptor)` for methods; literals read as in source code with a type
suffix (`1.5F`, `7L`, `2.0D`); everything else is the constructor name in the capitalised
mnemonic style (`ILoad(3)`, `ISh(Left)`, `If(EQ, l1)`).
-/

namespace ClassKit

namespace Literal

/-- `5`, `1.5F`, `7L`, `0.1D`, a quoted string, or `java/lang/String.class`. -/
def text : Literal → String
  | integer value => toString value.toInt
  | float bits => Decimal.positionalText Decimal.binary32 bits.toNat ++ "F"
  | long value => toString value.toInt ++ "L"
  | double bits => Decimal.positionalText Decimal.binary64 bits.toNat ++ "D"
  | string text => Quoted.quote text
  | classRef type => type.classConstantText ++ ".class"

end Literal

namespace FieldRef

/-- `owner.name : descriptor`. -/
def text (ref : FieldRef) : String :=
  s!"{ref.owner.text}.{ref.name.text} : {ref.descriptor.render}"

end FieldRef

namespace MethodRef

/-- `owner.name(parameters)return`. -/
def text (ref : MethodRef) : String :=
  s!"{ref.owner.classConstantText}.{ref.name.text}{ref.descriptor.render}"

end MethodRef

/-- The one-letter prefix of a slot type: `I`, `L`, `F`, `D`, `A`. -/
def SlotType.prefixLetter : SlotType → String
  | .int => "I" | .long => "L" | .float => "F" | .double => "D" | .reference => "A"

/-- The prefix of an array element type: `I`, `L`, `F`, `D`, `A`, `B`, `C`, `S`. -/
def ElementType.prefixLetter : ElementType → String
  | .int => "I" | .long => "L" | .float => "F" | .double => "D" | .reference => "A"
  | .byte => "B" | .char => "C" | .short => "S"

/-- The prefix of a number type: `I`, `L`, `F`, `D`. -/
def NumType.prefixLetter : NumType → String
  | .int => "I" | .long => "L" | .float => "F" | .double => "D"

def ArithOp.word : ArithOp → String
  | .add => "Add" | .sub => "Sub" | .mul => "Mul" | .div => "Div" | .rem => "Rem"

def BitOp.word : BitOp → String
  | .and => "And" | .or => "Or" | .xor => "Xor"

def ShiftKind.word : ShiftKind → String
  | .left => "Left" | .logicalRight => "LogicalRight" | .arithmeticRight => "ArithmeticRight"

def Conversion.word : Conversion → String
  | .i2l => "I2L" | .i2f => "I2F" | .i2d => "I2D" | .l2i => "L2I" | .l2f => "L2F"
  | .l2d => "L2D" | .f2i => "F2I" | .f2l => "F2L" | .f2d => "F2D" | .d2i => "D2I"
  | .d2l => "D2L" | .d2f => "D2F" | .i2b => "I2B" | .i2c => "I2C" | .i2s => "I2S"

def StackOp.word : StackOp → String
  | .pop => "Pop" | .pop2 => "Pop2" | .dup => "Dup" | .dupX1 => "DupX1" | .dupX2 => "DupX2"
  | .dup2 => "Dup2" | .dup2X1 => "Dup2X1" | .dup2X2 => "Dup2X2" | .swap => "Swap"

def NaNResult.word : NaNResult → String
  | .l => "L" | .g => "G"

def FieldAccess.word : FieldAccess → String
  | .getStatic => "GetStatic" | .putStatic => "PutStatic"
  | .getField => "GetField" | .putField => "PutField"

def InvokeKind.word : InvokeKind → String
  | .virtual => "Virtual" | .special => "Special" | .static => "Static" | .interface => "Interface"

def TypeOp.word : TypeOp → String
  | .new => "New" | .aNewArray => "ANewArray" | .checkCast => "CheckCast"
  | .instanceOf => "InstanceOf"

def SmallInt.word : SmallInt → String
  | .minusOne => "IConstM1" | .zero => "IConst0" | .one => "IConst1" | .two => "IConst2"
  | .three => "IConst3" | .four => "IConst4" | .five => "IConst5"

namespace Instruction

/-- The text of an instruction, without indentation. -/
def text : Instruction → String
  | nop => "Nop"
  | aconstNull => "AConstNull"
  | iconst value => value.word
  | lconst value => s!"LConst{value.val}"
  | fconst value => s!"FConst{value.val}"
  | dconst value => s!"DConst{value.val}"
  | bipush value => s!"BiPush({value.toInt})"
  | sipush value => s!"SiPush({value.toInt})"
  | ldc literal => "Ldc " ++ literal.text
  | load type slot => s!"{type.prefixLetter}Load({slot.toNat})"
  | store type slot => s!"{type.prefixLetter}Store({slot.toNat})"
  | iinc slot amount => s!"IInc({slot.toNat}, {amount.toInt})"
  | ret slot => s!"Ret({slot.toNat})"
  | arrayLoad element => s!"{element.prefixLetter}ALoad"
  | arrayStore element => s!"{element.prefixLetter}AStore"
  | stack op => op.word
  | arith op type => type.prefixLetter ++ op.word
  | neg type => type.prefixLetter ++ "Neg"
  | shift kind isLong => (if isLong then "L" else "I") ++ s!"Sh({kind.word})"
  | bitwise op isLong => (if isLong then "L" else "I") ++ op.word
  | convert conversion => conversion.word
  | lcmp => "LCmp"
  | fcmp nan => s!"FCmp({nan.word})"
  | dcmp nan => s!"DCmp({nan.word})"
  | field access ref => access.word ++ " " ++ ref.text
  | invoke kind ref => "Invoke" ++ kind.word ++ " " ++ ref.text
  | typeOp op type => op.word ++ " " ++ type.classConstantText
  | newArray element => s!"NewArray({element.word})"
  | arrayLength => "ArrayLength"
  | monitorEnter => "MonitorEnter"
  | monitorExit => "MonitorExit"
  | multiANewArray type dimensions => s!"MultiANewArray {type.classConstantText} {dimensions.toNat}"

end Instruction

def Condition.word : Condition → String
  | .eq => "EQ" | .ne => "NE" | .lt => "LT" | .ge => "GE" | .gt => "GT" | .le => "LE"

def Equality.word : Equality → String
  | .eq => "EQ" | .ne => "NE"

/-- Items between square brackets, separated by commas. -/
def bracketed (items : List String) : String := "[" ++ ", ".intercalate items ++ "]"

namespace Branch

/-- The text of a branch with label targets, without indentation. -/
def text : Branch Label → String
  | ifZero condition target => s!"If({condition.word}, {target.text})"
  | ifICmp condition target => s!"IfICmp({condition.word}, {target.text})"
  | ifACmp condition target => s!"IfACmp({condition.word}, {target.text})"
  | ifNull condition target => s!"IfNull({condition.word}, {target.text})"
  | goto target => s!"Goto({target.text})"
  | jsr target => s!"Jsr({target.text})"
  | tableSwitch default low targets =>
    s!"TableSwitch \x7b default: {default.text}, low: {low.toInt}, targets: {bracketed (targets.map Label.text)} \x7d"
  | lookupSwitch default pairs =>
    let shown := pairs.map fun (key, target) => s!"({key.toInt}, {target.text})"
    s!"LookupSwitch \x7b default: {default.text}, targets: {bracketed shown} \x7d"
  | returnValue type => type.prefixLetter ++ "Return"
  | returnVoid => "Return"
  | athrow => "AThrow"

end Branch

namespace Entry

/-- `l3:` for a label; an instruction or a branch indented by four spaces. -/
def text : Entry → String
  | label l => l.text ++ ":"
  | instruction i => "    " ++ i.text
  | branch b => "    " ++ b.text

end Entry

end ClassKit
