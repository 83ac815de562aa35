import ClassKit.Code.Flow
import ClassKit.Code.Opcode
import ClassKit.Pool.Builder
import ClassKit.ClassFile.Basic
import ClassKit.Log

/-!
# Writing a body as bytecode

Writing a body first bounds its operand stack and local variables, then turns each instruction
into bytes (adding its constants to the pool in order), and lays the code out. A jump whose
distance does not fit in 16 bits is widened: `goto` and `jsr` to their 32-bit forms, a
conditional to the opposite conditional over a 32-bit `goto`. Widening moves later code, so the
layout is repeated until no jump needs widening.

Loads and stores take their one-byte forms for slots 0 to 3, a one-byte slot up to 255 and the
`wide` prefix above; switches are padded to four bytes from the start of the code, and lookup
switch pairs are written sorted by key. Exception handlers whose range has become empty are
dropped, with a debug record.
-/

namespace ClassKit

/-- A computation that writes part of a class: adds pool entries, may log, may fail. -/
abbrev WriteM := StateT PoolBuilder (LogExcept ClassError)

namespace WriteM

/-- Runs a pool computation as part of writing a class. -/
def pool {α : Type} (action : PoolM α) : WriteM α := fun builder =>
  let (result, builder) := action.run.run builder
  liftExcept ((·, builder) <$> result)

/-- Fails writing with an error. -/
def fail {α : Type} (err : ClassError) : WriteM α := fun _ => liftExcept (.error err)

end WriteM

/-- The bytes of a load or store of `slot`: a one-byte opcode from `shortBase` for slots 0 to 3,
`normal` with a one-byte slot up to 255, and `wide` with a two-byte slot above. -/
def slotBytes (slot : UInt16) (shortBase normal : Nat) : List UInt8 :=
  if slot.toNat ≤ 3 then [(shortBase + slot.toNat).toUInt8]
  else if slot.toNat ≤ 255 then [normal.toUInt8, slot.toUInt8]
  else [0xc4, normal.toUInt8] ++ Bytes.u16 slot.toNat

namespace Instruction

/-- The bytes of an instruction, adding the constants it refers to. -/
def lower (instruction : Instruction) : PoolM (List UInt8) :=
  match instruction.simpleOpcode? with
  | some opcode => pure [opcode.toUInt8]
  | none =>
  match instruction with
  | bipush value => pure [0x10, value.toUInt8]
  | sipush value => pure ([0x11] ++ Bytes.ofInt 2 value.toInt)
  | ldc literal => do
    let index ← PoolBuilder.literal literal
    match literal with
    | .long _ | .double _ => pure ([0x14] ++ Bytes.u16 index)
    | _ => pure (if index ≤ 255 then [0x12, index.toUInt8] else [0x13] ++ Bytes.u16 index)
  | load type slot => pure (slotBytes slot (0x1a + 4 * type.code) (0x15 + type.code))
  | store type slot => pure (slotBytes slot (0x3b + 4 * type.code) (0x36 + type.code))
  | iinc slot amount =>
    if slot.toNat ≤ 255 && -128 ≤ amount.toInt && amount.toInt ≤ 127 then
      pure [0x84, slot.toUInt8, (Int8.ofInt amount.toInt).toUInt8]
    else pure ([0xc4, 0x84] ++ Bytes.u16 slot.toNat ++ Bytes.ofInt 2 amount.toInt)
  | ret slot =>
    pure (if slot.toNat ≤ 255 then [0xa9, slot.toUInt8] else [0xc4, 0xa9] ++ Bytes.u16 slot.toNat)
  | field access ref => do
    let opcode : UInt8 := match access with
      | .getStatic => 0xb2 | .putStatic => 0xb3 | .getField => 0xb4 | .putField => 0xb5
    let index ← PoolBuilder.fieldRef ref
    pure ([opcode] ++ Bytes.u16 index)
  | invoke kind ref => do
    let index ← PoolBuilder.methodRef ref
    let opcode : UInt8 := match kind with
      | .virtual => 0xb6 | .special => 0xb7 | .static => 0xb8 | .interface => 0xb9
    let trailer := match kind with
      | .interface => [(ref.descriptor.parameterSlots true).toUInt8, 0]
      | _ => []
    pure ([opcode] ++ Bytes.u16 index ++ trailer)
  | typeOp op type => do
    let opcode : UInt8 := match op with
      | .new => 0xbb | .aNewArray => 0xbd | .checkCast => 0xc0 | .instanceOf => 0xc1
    let index ← PoolBuilder.refType type
    pure ([opcode] ++ Bytes.u16 index)
  | newArray element => pure [0xbc, element.arrayCode.toUInt8]
  | multiANewArray type dimensions => do
    let index ← PoolBuilder.refType type
    pure ([0xc5] ++ Bytes.u16 index ++ [dimensions])
  | _ => pure []

end Instruction

/-- An entry on its way to bytecode: the bytes of an instruction, a label, or a branch whose
form depends on the layout. -/
inductive Lowered where
  | bytes (code : List UInt8)
  | label (label : Label)
  | branch (branch : Branch Label)

/-- Padding after a switch opcode at `offset` that aligns its operands to four bytes. -/
def switchPadding (offset : Nat) : Nat := (4 - (offset + 1) % 4) % 4

namespace Branch

variable {τ : Type}

/-- Whether the branch has a 16-bit form that may need widening. -/
def hasShortForm : Branch τ → Bool
  | ifZero .. | ifICmp .. | ifACmp .. | ifNull .. | goto _ | jsr _ => true
  | _ => false

/-- The size of the branch at `offset`, in its short or wide form. -/
def size (branch : Branch τ) (offset : Nat) (wide : Bool) : Nat :=
  match branch with
  | ifZero .. | ifICmp .. | ifACmp .. | ifNull .. => if wide then 8 else 3
  | goto _ | jsr _ => if wide then 5 else 3
  | tableSwitch _ _ targets => 1 + switchPadding offset + 12 + 4 * targets.length
  | lookupSwitch _ pairs => 1 + switchPadding offset + 8 + 8 * pairs.length
  | _ => 1

/-- A conditional jump: its short form, or the opposite condition jumping 8 bytes ahead over a
32-bit `goto`. -/
def conditionalBytes (opcode opposite : Nat) (distance : Int) (wide : Bool) : List UInt8 :=
  if wide then [opposite.toUInt8] ++ Bytes.ofInt 2 8 ++ [0xc8] ++ Bytes.ofInt 4 (distance - 3)
  else [opcode.toUInt8] ++ Bytes.ofInt 2 distance

/-- The bytes of a branch at `offset`, with targets given as distances from the branch. -/
def bytes (branch : Branch Int) (offset : Nat) (wide : Bool) : List UInt8 :=
  match branch with
  | ifZero condition distance =>
    conditionalBytes (0x99 + condition.code) (0x99 + condition.negate.code) distance wide
  | ifICmp condition distance =>
    conditionalBytes (0x9f + condition.code) (0x9f + condition.negate.code) distance wide
  | ifACmp condition distance =>
    conditionalBytes (0xa5 + condition.code) (0xa5 + condition.negate.code) distance wide
  | ifNull condition distance =>
    conditionalBytes (0xc6 + condition.code) (0xc6 + condition.negate.code) distance wide
  | goto distance => if wide then [0xc8] ++ Bytes.ofInt 4 distance else [0xa7] ++ Bytes.ofInt 2 distance
  | jsr distance => if wide then [0xc9] ++ Bytes.ofInt 4 distance else [0xa8] ++ Bytes.ofInt 2 distance
  | tableSwitch default low targets =>
    [0xaa] ++ List.replicate (switchPadding offset) 0 ++ Bytes.ofInt 4 default ++
      Bytes.ofInt 4 low.toInt ++ Bytes.ofInt 4 (low.toInt + targets.length - 1) ++
      targets.flatMap (Bytes.ofInt 4)
  | lookupSwitch default pairs =>
    let sorted := pairs.mergeSort fun first second => first.1.toInt ≤ second.1.toInt
    [0xab] ++ List.replicate (switchPadding offset) 0 ++ Bytes.ofInt 4 default ++
      Bytes.ofInt 4 pairs.length ++
      sorted.flatMap fun (key, distance) => Bytes.ofInt 4 key.toInt ++ Bytes.ofInt 4 distance
  | returnValue type => [(0xac + type.code).toUInt8]
  | returnVoid => [0xb1]
  | athrow => [0xbf]

end Branch

/-- Where each entry starts and where each label is placed, for given branch widths. -/
structure Layout where
  offsets : Array Nat
  labels : Std.HashMap Label Nat

namespace Layout

/-- Lays entries out one after the other; a label placed twice is an error. -/
def build (lowered : Array Lowered) (wide : Array Bool) : Except ClassError Layout := do
  let (layout, _) ← lowered.toList.zipIdx.foldlM (fun ((layout : Layout), offset) (entry, index) =>
    let layout := { layout with offsets := layout.offsets.push offset }
    match entry with
    | .bytes code => .ok (layout, offset + code.length)
    | .label label =>
      if layout.labels.contains label then .error (.duplicateLabel label)
      else .ok ({ layout with labels := layout.labels.insert label offset }, offset)
    | .branch branch => .ok (layout, offset + branch.size offset (wide[index]?.getD false)))
    ((⟨#[], {}⟩ : Layout), 0)
  pure layout

/-- The offset of a placed label. -/
def labelOffset (layout : Layout) (label : Label) : Except ClassError Nat :=
  match layout.labels[label]? with
  | some offset => .ok offset
  | none => .error (.unplacedLabel label)

/-- Whether a jump over `distance` bytes fits in 16 bits. -/
def fitsShort (distance : Int) : Bool := -32768 ≤ distance && distance ≤ 32767

/-- The branch widths after one more look at the layout, and whether any changed. -/
def widenOnce (lowered : Array Lowered) (wide : Array Bool) (layout : Layout) :
    Except ClassError (Array Bool × Bool) :=
  lowered.toList.zipIdx.foldlM (fun (wide, changed) (entry, index) =>
    match entry with
    | .branch branch =>
      if wide[index]?.getD false || !branch.hasShortForm then .ok (wide, changed)
      else branch.targets.foldlM (fun (wide, changed) target => do
        let offset ← layout.labelOffset target
        let here := (layout.offsets[index]?.getD 0 : Int)
        if fitsShort (offset - here) then pure (wide, changed)
        else pure (wide.set! index true, true)) (wide, changed)
    | _ => .ok (wide, changed)) (wide, false)

/-- Widens jumps until the layout is stable. Each round widens at least one more branch, so
`rounds` of one more than the number of entries suffice. -/
def settle (lowered : Array Lowered) : Nat → Array Bool → Except ClassError (Array Bool × Layout)
  | 0, wide => do pure (wide, ← build lowered wide)
  | rounds + 1, wide => do
    let layout ← build lowered wide
    let (wide, changed) ← widenOnce lowered wide layout
    if changed then settle lowered rounds wide else pure (wide, layout)

end Layout

namespace Body

/-- The largest operand stack, local variable count and code length a method may have. -/
def limit : Nat := 65535

/-- Writes the body of a method with `parameterSlots` parameter slots as a `Code` attribute. -/
def encode (body : Body) (parameterSlots : Nat) : WriteM CodeAttribute := do
  let maxStack ← WriteM.pool (MonadExcept.ofExcept body.maxStack : PoolM Nat)
  let maxLocals := body.maxLocals parameterSlots
  if maxStack > limit then WriteM.fail (.maxStackTooLarge maxStack)
  if maxLocals > limit then WriteM.fail (.maxLocalsTooLarge maxLocals)
  let lowered ← WriteM.pool (body.entries.mapM fun entry =>
    match entry with
    | .label label => pure (Lowered.label label)
    | .instruction instruction => Lowered.bytes <$> instruction.lower
    | .branch branch => pure (Lowered.branch branch))
  let (wide, layout) ← WriteM.pool (MonadExcept.ofExcept
    (Layout.settle lowered (lowered.size + 1) (Array.replicate lowered.size false)))
  let code ← WriteM.pool (MonadExcept.ofExcept (lowered.toList.zipIdx.foldlM
    (fun (code : Array UInt8) (entry, index) =>
      match entry with
      | .bytes bytes => .ok (code ++ bytes.toArray)
      | .label _ => .ok code
      | .branch branch => do
        let offset := layout.offsets[index]?.getD 0
        let relative ← branch.mapM fun target => do
          let placed ← layout.labelOffset target
          pure ((placed : Int) - offset)
        pure (code ++ (relative.bytes offset (wide[index]?.getD false)).toArray)) #[]))
  if code.size > limit then WriteM.fail (.codeTooLong code.size)
  let rows ← body.handlers.foldlM (fun (rows : Array HandlerRow) handler => do
    let startPc ← WriteM.pool (MonadExcept.ofExcept (layout.labelOffset handler.start))
    let endPc ← WriteM.pool (MonadExcept.ofExcept (layout.labelOffset handler.stop))
    let handlerPc ← WriteM.pool (MonadExcept.ofExcept (layout.labelOffset handler.target))
    if startPc ≥ endPc then
      emit .debug "classpatch::jvm::code::encode"
        s!"Dropping handler {handler.start.text}-{handler.stop.text} which no longer covers any code"
      pure rows
    else
      let catchIndex ← match handler.catchType with
        | none => pure 0
        | some name => WriteM.pool (PoolBuilder.binaryName name)
      pure (rows.push { startPc, endPc, handlerPc, catchIndex })) #[]
  pure { maxStack, maxLocals, code := code.toList, handlers := rows.toList, attributes := [] }

end Body

end ClassKit
