import ClassKit.Code.Instruction
import ClassKit.Error
import ClassKit.Text.Hex

/-!
# Written form of body entries

An entry is written as a mnemonic followed by its operands, for instance
`getstatic client ob Z`, `iinc 1 -1`, `tableswitch 0 -1 [1 2]` or `label 3`. Operands are numbers,
texts, flags, lists, and tagged literals for `ldc` (`int 5`, `float 3fc00000`, `long -1`,
`double 3ff8000000000000`, `string s`, `class [I`).

Encoding details do not appear: there are no short forms (`iload_0`), no `wide` and no `goto_w`.
Reading checks every name, descriptor and range; the first problem found is reported.
-/

namespace ClassKit

/-- One operand of a written entry. -/
inductive Operand where
  | number (value : Int)
  | text (value : String)
  | flag (value : Bool)
  | null
  | list (items : List Operand)
  | tagged (tag : String) (value : Operand)
  deriving Inhabited, Repr

/-- Why a written entry could not be read. -/
inductive SyntaxError where
  | malformed (message : String)
  | badName (problem : String)
  | badDescriptor (err : DescriptorError)
  | badClass (err : ClassError)

/-! ## Writing -/

namespace SlotType
def lower : SlotType → String
  | int => "i" | long => "l" | float => "f" | double => "d" | reference => "a"
end SlotType

namespace ElementType
def lower : ElementType → String
  | int => "i" | long => "l" | float => "f" | double => "d" | reference => "a"
  | byte => "b" | char => "c" | short => "s"
end ElementType

namespace NumType
def lower : NumType → String
  | int => "i" | long => "l" | float => "f" | double => "d"
end NumType

namespace Instruction

/-- The mnemonic of an instruction. -/
def mnemonic : Instruction → String
  | nop => "nop"
  | aconstNull => "aconst_null"
  | iconst .minusOne => "iconst_m1"
  | iconst value => s!"iconst_{value.toInt}"
  | lconst value => s!"lconst_{value.val}"
  | fconst value => s!"fconst_{value.val}"
  | dconst value => s!"dconst_{value.val}"
  | bipush _ => "bipush"
  | sipush _ => "sipush"
  | ldc _ => "ldc"
  | load type _ => type.lower ++ "load"
  | store type _ => type.lower ++ "store"
  | iinc _ _ => "iinc"
  | ret _ => "ret"
  | arrayLoad element => element.lower ++ "aload"
  | arrayStore element => element.lower ++ "astore"
  | stack op =>
    match op with
    | .pop => "pop" | .pop2 => "pop2" | .dup => "dup" | .dupX1 => "dup_x1"
    | .dupX2 => "dup_x2" | .dup2 => "dup2" | .dup2X1 => "dup2_x1" | .dup2X2 => "dup2_x2"
    | .swap => "swap"
  | arith op type =>
    type.lower ++ match op with
      | .add => "add" | .sub => "sub" | .mul => "mul" | .div => "div" | .rem => "rem"
  | neg type => type.lower ++ "neg"
  | shift kind isLong =>
    (if isLong then "l" else "i") ++ match kind with
      | .left => "shl" | .arithmeticRight => "shr" | .logicalRight => "ushr"
  | bitwise op isLong =>
    (if isLong then "l" else "i") ++ match op with
      | .and => "and" | .or => "or" | .xor => "xor"
  | convert conversion =>
    match conversion with
    | .i2l => "i2l" | .i2f => "i2f" | .i2d => "i2d" | .l2i => "l2i" | .l2f => "l2f"
    | .l2d => "l2d" | .f2i => "f2i" | .f2l => "f2l" | .f2d => "f2d" | .d2i => "d2i"
    | .d2l => "d2l" | .d2f => "d2f" | .i2b => "i2b" | .i2c => "i2c" | .i2s => "i2s"
  | lcmp => "lcmp"
  | fcmp nan => if nan == .l then "fcmpl" else "fcmpg"
  | dcmp nan => if nan == .l then "dcmpl" else "dcmpg"
  | field access _ =>
    match access with
    | .getStatic => "getstatic" | .putStatic => "putstatic"
    | .getField => "getfield" | .putField => "putfield"
  | invoke kind _ =>
    match kind with
    | .virtual => "invokevirtual" | .special => "invokespecial"
    | .static => "invokestatic" | .interface => "invokeinterface"
  | typeOp op _ =>
    match op with
    | .new => "new" | .aNewArray => "anewarray" | .checkCast => "checkcast"
    | .instanceOf => "instanceof"
  | newArray _ => "newarray"
  | arrayLength => "arraylength"
  | monitorEnter => "monitorenter"
  | monitorExit => "monitorexit"
  | multiANewArray _ _ => "multianewarray"

end Instruction

namespace Literal

/-- A literal as a tagged operand. -/
def toOperand : Literal → Operand
  | integer value => .tagged "int" (.number value.toInt)
  | float bits => .tagged "float" (.text (Hex.fixed 8 bits.toNat))
  | long value => .tagged "long" (.text (toString value.toInt))
  | double bits => .tagged "double" (.text (Hex.fixed 16 bits.toNat))
  | string text => .tagged "string" (.text text)
  | classRef type => .tagged "class" (.text type.classConstantText)

end Literal

namespace Instruction

/-- The operands of an instruction. -/
def operands : Instruction → List Operand
  | bipush value => [.number value.toInt]
  | sipush value => [.number value.toInt]
  | ldc literal => [literal.toOperand]
  | load _ slot | store _ slot | ret slot => [.number slot.toNat]
  | iinc slot amount => [.number slot.toNat, .number amount.toInt]
  | field _ ref => [.text ref.owner.text, .text ref.name.text, .text ref.descriptor.render]
  | invoke _ ref =>
    [.text ref.owner.classConstantText, .text ref.name.text, .text ref.descriptor.render,
      .flag ref.isInterface]
  | typeOp _ type => [.text type.classConstantText]
  | newArray element => [.text element.render]
  | multiANewArray type dimensions => [.text type.classConstantText, .number dimensions.toNat]
  | _ => []

end Instruction

namespace Condition
def lower : Condition → String
  | eq => "eq" | ne => "ne" | lt => "lt" | ge => "ge" | gt => "gt" | le => "le"
end Condition

namespace Branch

/-- The mnemonic of a branch. -/
def mnemonic {τ : Type} : Branch τ → String
  | ifZero condition _ => "if" ++ condition.lower
  | ifICmp condition _ => "if_icmp" ++ condition.lower
  | ifACmp condition _ => if condition == .eq then "if_acmpeq" else "if_acmpne"
  | ifNull condition _ => if condition == .eq then "ifnull" else "ifnonnull"
  | goto _ => "goto"
  | jsr _ => "jsr"
  | tableSwitch .. => "tableswitch"
  | lookupSwitch .. => "lookupswitch"
  | returnValue type => type.lower ++ "return"
  | returnVoid => "return"
  | athrow => "athrow"

/-- The operands of a branch with label targets. -/
def operands : Branch Label → List Operand
  | ifZero _ target | ifICmp _ target | ifACmp _ target | ifNull _ target
  | goto target | jsr target => [.number target.index]
  | tableSwitch default low targets =>
    [.number default.index, .number low.toInt, .list (targets.map fun t => .number t.index)]
  | lookupSwitch default pairs =>
    [.number default.index,
      .list (pairs.map fun (key, t) => .list [.number key.toInt, .number t.index])]
  | _ => []

end Branch

namespace Entry

/-- The written form of an entry: its mnemonic, then its operands. -/
def toSyntax : Entry → List Operand
  | label l => [.text "label", .number l.index]
  | instruction i => .text i.mnemonic :: i.operands
  | branch b => .text b.mnemonic :: b.operands

end Entry

/-! ## Reading -/

/-- Every instruction and branch without operands. -/
def bareEntries : List Entry :=
  let smallInts : List SmallInt := [.minusOne, .zero, .one, .two, .three, .four, .five]
  let elements : List ElementType := [.int, .long, .float, .double, .reference, .byte, .char, .short]
  let stackOps : List StackOp := [.pop, .pop2, .dup, .dupX1, .dupX2, .dup2, .dup2X1, .dup2X2, .swap]
  let arithOps : List ArithOp := [.add, .sub, .mul, .div, .rem]
  let numbers : List NumType := [.int, .long, .float, .double]
  let shiftKinds : List ShiftKind := [.left, .arithmeticRight, .logicalRight]
  let bitOps : List BitOp := [.and, .or, .xor]
  let widths : List IsLong := [false, true]
  let conversions : List Conversion :=
    [.i2l, .i2f, .i2d, .l2i, .l2f, .l2d, .f2i, .f2l, .f2d, .d2i, .d2l, .d2f, .i2b, .i2c, .i2s]
  let constants : List Instruction :=
    (List.finRange 2).map .lconst ++ (List.finRange 3).map .fconst ++ (List.finRange 2).map .dconst
  let comparisons : List Instruction :=
    [.lcmp, .fcmp .l, .fcmp .g, .dcmp .l, .dcmp .g, .arrayLength, .monitorEnter, .monitorExit]
  let groups : List (List Instruction) :=
    [[.nop, .aconstNull], smallInts.map .iconst, constants, elements.map .arrayLoad,
     elements.map .arrayStore, stackOps.map .stack,
     arithOps.flatMap (fun op => numbers.map (.arith op)), numbers.map .neg,
     shiftKinds.flatMap (fun kind => widths.map (.shift kind)),
     bitOps.flatMap (fun op => widths.map (.bitwise op)), conversions.map .convert, comparisons]
  let returns : List SlotType := [.int, .long, .float, .double, .reference]
  let branches : List (Branch Label) := returns.map .returnValue ++ [.returnVoid, .athrow]
  groups.flatten.map .instruction ++ branches.map .branch

/-- The mnemonic of an entry without operands. -/
def Entry.mnemonic : Entry → String
  | .label _ => "label"
  | .instruction i => i.mnemonic
  | .branch b => b.mnemonic

/-- Reads a whole number in a range, or explains the problem. -/
def Operand.bounded (low high : Int) : Operand → Except SyntaxError Int
  | .number value =>
    if low ≤ value && value ≤ high then .ok value
    else .error (.malformed s!"operand {value} out of range")
  | _ => .error (.malformed "expected a number")

def Operand.nat16 (operand : Operand) : Except SyntaxError UInt16 :=
  (fun n => n.toNat.toUInt16) <$> operand.bounded 0 65535

def Operand.int32 (operand : Operand) : Except SyntaxError Int32 :=
  Int32.ofInt <$> operand.bounded (-2147483648) 2147483647

def Operand.label (operand : Operand) : Except SyntaxError Label :=
  (fun n => Label.mk n.toNat) <$> operand.bounded 0 1000000

def Operand.string : Operand → Except SyntaxError String
  | .text value => .ok value
  | _ => .error (.malformed "expected a string")

def Operand.items : Operand → Except SyntaxError (List Operand)
  | .list items => .ok items
  | _ => .error (.malformed "expected a list")

/-- Reads an optionally signed decimal integer. -/
def parseDecimal? (text : String) : Option Int :=
  let digitsOnly (cs : List Char) : Option Nat :=
    if cs.isEmpty then none
    else cs.foldlM (fun acc c => if c.isDigit then some (acc * 10 + (c.toNat - '0'.toNat)) else none) 0
  match text.toList with
  | '-' :: rest => (digitsOnly rest).map fun n => -(n : Int)
  | '+' :: rest => (digitsOnly rest).map fun n => (n : Int)
  | rest => (digitsOnly rest).map fun n => (n : Int)

def checkedName (text : String) : Except SyntaxError UnqualifiedName :=
  (UnqualifiedName.ofString text).mapError .badName

def checkedClass (text : String) : Except SyntaxError BinaryName :=
  (BinaryName.ofString text).mapError .badName

def checkedClassText (text : String) : Except SyntaxError RefType :=
  (RefType.ofClassText text).mapError .badClass

/-- Reads a tagged literal. -/
def Literal.ofOperand : Operand → Except SyntaxError Literal
  | .tagged "int" value => Literal.integer <$> value.int32
  | .tagged "float" (.text hex) =>
    match Hex.toNat? hex with
    | some bits => if hex.length == 8 then .ok (.float bits.toUInt32)
      else .error (.malformed "float constant needs 8 hex digits")
    | none => .error (.malformed "float constant needs 8 hex digits")
  | .tagged "double" (.text hex) =>
    match Hex.toNat? hex with
    | some bits => if hex.length == 16 then .ok (.double bits.toUInt64)
      else .error (.malformed "double constant needs 16 hex digits")
    | none => .error (.malformed "double constant needs 16 hex digits")
  | .tagged "long" (.text digits) =>
    match parseDecimal? digits with
    | some value =>
      if -9223372036854775808 ≤ value && value ≤ 9223372036854775807 then .ok (.long (Int64.ofInt value))
      else .error (.malformed s!"long constant {digits} out of range")
    | none => .error (.malformed s!"bad long constant {digits}")
  | .tagged "string" (.text text) => .ok (.string text)
  | .tagged "class" (.text text) => Literal.classRef <$> checkedClassText text
  | _ => .error (.malformed "bad constant")

/-- Reads a condition mnemonic suffix. -/
def Condition.ofLower? : String → Option Condition
  | "eq" => some .eq | "ne" => some .ne | "lt" => some .lt | "ge" => some .ge
  | "gt" => some .gt | "le" => some .le | _ => none

/-- Reads the label target operand of a one-target branch. -/
def oneTarget (make : Label → Branch Label) : List Operand → Except SyntaxError Entry
  | [target] => (fun t => .branch (make t)) <$> target.label
  | _ => .error (.malformed "expected one label")

/-- Reads the entries whose operands have a fixed shape; none when the mnemonic is not one of
them, or the operands do not have its shape. -/
def Entry.ofShaped (mnemonic : String) (operands : List Operand) :
    Option (Except SyntaxError Entry) :=
  match mnemonic with
  | "label" =>
    match operands with
    | [n] => some (Entry.label <$> n.label)
    | _ => none
  | "bipush" =>
    match operands with
    | [value] =>
      some ((fun v => .instruction (.bipush (Int8.ofInt v))) <$> value.bounded (-128) 127)
    | _ => none
  | "sipush" =>
    match operands with
    | [value] =>
      some ((fun v => .instruction (.sipush (Int16.ofInt v))) <$> value.bounded (-32768) 32767)
    | _ => none
  | "ldc" =>
    match operands with
    | [literal] => some ((fun l => .instruction (.ldc l)) <$> Literal.ofOperand literal)
    | _ => none
  | "iinc" =>
    match operands with
    | [slot, amount] => some do
      let slot ← slot.nat16
      let amount ← amount.bounded (-32768) 32767
      pure (.instruction (.iinc slot (Int16.ofInt amount)))
    | _ => none
  | "ret" =>
    match operands with
    | [slot] => some ((fun s => .instruction (.ret s)) <$> slot.nat16)
    | _ => none
  | "newarray" =>
    match operands with
    | [.text letter] => some ((fun base => .instruction (.newArray base)) <$>
        (BaseType.parse letter).mapError .badDescriptor)
    | _ => none
  | "multianewarray" =>
    match operands with
    | [type, dimensions] => some do
      let type ← checkedClassText (← type.string)
      let dimensions ← dimensions.bounded 0 255
      pure (.instruction (.multiANewArray type dimensions.toNat.toUInt8))
    | _ => none
  | "tableswitch" =>
    match operands with
    | [default, low, targets] => some do
      let default ← default.label
      let low ← low.int32
      let targets ← (← targets.items).mapM Operand.label
      pure (.branch (.tableSwitch default low targets))
    | _ => none
  | "lookupswitch" =>
    match operands with
    | [default, pairs] => some do
      let default ← default.label
      let pairs ← (← pairs.items).mapM fun pair => do
        match ← pair.items with
        | [key, target] => pure ((← key.int32), (← target.label))
        | _ => throw (.malformed "expected a key and a label")
      pure (.branch (.lookupSwitch default pairs))
    | _ => none
  | "goto" => some (oneTarget .goto operands)
  | "jsr" => some (oneTarget .jsr operands)
  | "if_acmpeq" => some (oneTarget (.ifACmp .eq) operands)
  | "if_acmpne" => some (oneTarget (.ifACmp .ne) operands)
  | "ifnull" => some (oneTarget (.ifNull .eq) operands)
  | "ifnonnull" => some (oneTarget (.ifNull .ne) operands)
  | _ => none

/-- Reads a written entry. -/
def Entry.ofSyntax : List Operand → Except SyntaxError Entry
  | [] => .error (.malformed "empty instruction")
  | .text mnemonic :: operands =>
    match Entry.ofShaped mnemonic operands with
    | some result => result
    | none =>
      if let some type := slotMnemonic mnemonic "load" then slotted (.load type) operands
      else if let some type := slotMnemonic mnemonic "store" then slotted (.store type) operands
      else if let some access := fieldMnemonic mnemonic then
        match operands with
        | [owner, name, descriptor] => do
          let owner ← checkedClass (← owner.string)
          let name ← checkedName (← name.string)
          let descriptor ← (FieldType.parse (← descriptor.string)).mapError .badDescriptor
          pure (.instruction (.field access ⟨owner, name, descriptor⟩))
        | _ => .error (.malformed s!"{mnemonic} takes an owner, a name and a descriptor")
      else if let some kind := invokeMnemonic mnemonic then
        let method (owner name descriptor : Operand) (isInterface : Bool) : Except SyntaxError Entry := do
          let owner ← checkedClassText (← owner.string)
          let name ← checkedName (← name.string)
          let descriptor ← (MethodDescriptor.parse (← descriptor.string)).mapError .badDescriptor
          pure (.instruction (.invoke kind ⟨owner, name, descriptor, isInterface⟩))
        match operands with
        | [owner, name, descriptor] => method owner name descriptor (kind == .interface)
        | [owner, name, descriptor, .flag isInterface] => method owner name descriptor isInterface
        | [owner, name, descriptor, .null] => method owner name descriptor (kind == .interface)
        | _ => .error (.malformed s!"{mnemonic} takes an owner, a name, a descriptor and a flag")
      else if let some op := typeMnemonic mnemonic then
        match operands with
        | [type] => do
          let type ← checkedClassText (← type.string)
          pure (.instruction (.typeOp op type))
        | _ => .error (.malformed s!"{mnemonic} takes a class")
      else if mnemonic.startsWith "if_icmp" then
        match Condition.ofLower? (mnemonic.drop 7).toString with
        | some condition => oneTarget (.ifICmp condition) operands
        | none => .error (.malformed s!"unknown instruction {mnemonic}")
      else if mnemonic.startsWith "if" && mnemonic.length == 4 then
        match Condition.ofLower? (mnemonic.drop 2).toString with
        | some condition => oneTarget (.ifZero condition) operands
        | none => .error (.malformed s!"unknown instruction {mnemonic}")
      else
        match bareEntries.find? (·.mnemonic == mnemonic), operands with
        | some entry, [] => .ok entry
        | some _, _ => .error (.malformed s!"{mnemonic} takes no operands")
        | none, _ => .error (.malformed s!"unknown instruction {mnemonic}")
  | _ => .error (.malformed "expected a mnemonic")
where
  slotMnemonic (mnemonic suffix : String) : Option SlotType :=
    [SlotType.int, .long, .float, .double, .reference].find? (·.lower ++ suffix == mnemonic)
  slotted (make : UInt16 → Instruction) : List Operand → Except SyntaxError Entry
    | [slot] => (fun s => .instruction (make s)) <$> slot.nat16
    | _ => .error (.malformed "expected one slot")
  fieldMnemonic : String → Option FieldAccess
    | "getstatic" => some .getStatic | "putstatic" => some .putStatic
    | "getfield" => some .getField | "putfield" => some .putField | _ => none
  invokeMnemonic : String → Option InvokeKind
    | "invokevirtual" => some .virtual | "invokespecial" => some .special
    | "invokestatic" => some .static | "invokeinterface" => some .interface | _ => none
  typeMnemonic : String → Option TypeOp
    | "new" => some .new | "anewarray" => some .aNewArray | "checkcast" => some .checkCast
    | "instanceof" => some .instanceOf | _ => none

end ClassKit
