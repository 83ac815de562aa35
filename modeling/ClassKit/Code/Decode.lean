import ClassKit.Code.Body
import ClassKit.Code.Opcode
import ClassKit.ClassFile.Basic

/-!
# Reading a body from bytecode

Bytecode is read instruction by instruction, resolving every pool index on the way. Branch
targets are byte offsets relative to the branch; each must be the start of an instruction. The
rows of the exception table must cover a non-empty range that starts at an instruction and ends
at one or at the end of the code, and their handlers must start at an instruction.

Every offset that a branch or a handler row refers to becomes a label, numbered `0, 1, 2, …` in
increasing offset, placed just before the instruction at that offset, or at the very end for the
end of the code.
-/

namespace ClassKit

/-- An instruction or branch read from bytecode, with branch targets as byte offsets. -/
inductive Decoded where
  | instruction (instruction : Instruction)
  | branch (branch : Branch Int)

namespace SlotType

/-- The slot type with a given offset within load, store and return opcodes. -/
def ofCode : Nat → SlotType
  | 0 => int | 1 => long | 2 => float | 3 => double | _ => reference

end SlotType

namespace Condition

def ofCode : Nat → Condition
  | 0 => eq | 1 => ne | 2 => lt | 3 => ge | 4 => gt | _ => le

end Condition

namespace Decoded

open ByteReader

/-- Skips the padding that aligns switch operands to four bytes from the start of the code. -/
def skipPadding : ByteReader Unit := do
  let position ← ByteReader.position
  discard (take ((4 - position % 4) % 4))

/-- Reads the instruction starting at byte `offset` of the code. -/
def read (pool : ConstantPool) (offset : Nat) : ByteReader Decoded := do
  let opcode ← u8
  let rel16 : ByteReader Int := (fun delta => (offset : Int) + delta) <$> i16
  let rel32 : ByteReader Int := (fun delta => (offset : Int) + delta) <$> i32
  let plain (instruction : Instruction) : ByteReader Decoded := pure (.instruction instruction)
  let jump (branch : Branch Int) : ByteReader Decoded := pure (.branch branch)
  let classOperand : ByteReader RefType := do MonadExcept.ofExcept (pool.refType (← u16))
  match Instruction.ofSimpleOpcode? opcode with
  | some simple => plain simple
  | none =>
  if 0x1a ≤ opcode && opcode ≤ 0x2d then
    plain (.load (SlotType.ofCode ((opcode - 0x1a) / 4)) ((opcode - 0x1a) % 4).toUInt16)
  else if 0x3b ≤ opcode && opcode ≤ 0x4e then
    plain (.store (SlotType.ofCode ((opcode - 0x3b) / 4)) ((opcode - 0x3b) % 4).toUInt16)
  else if 0x15 ≤ opcode && opcode ≤ 0x19 then
    plain (.load (SlotType.ofCode (opcode - 0x15)) (← u8).toUInt16)
  else if 0x36 ≤ opcode && opcode ≤ 0x3a then
    plain (.store (SlotType.ofCode (opcode - 0x36)) (← u8).toUInt16)
  else if 0x99 ≤ opcode && opcode ≤ 0x9e then
    jump (.ifZero (Condition.ofCode (opcode - 0x99)) (← rel16))
  else if 0x9f ≤ opcode && opcode ≤ 0xa4 then
    jump (.ifICmp (Condition.ofCode (opcode - 0x9f)) (← rel16))
  else if 0xac ≤ opcode && opcode ≤ 0xb0 then
    jump (.returnValue (SlotType.ofCode (opcode - 0xac)))
  else match opcode with
  | 0x10 => plain (.bipush (Int8.ofInt (← i8)))
  | 0x11 => plain (.sipush (Int16.ofInt (← i16)))
  | 0x12 => plain (.ldc (← MonadExcept.ofExcept (pool.literal (← u8))))
  | 0x13 | 0x14 => plain (.ldc (← MonadExcept.ofExcept (pool.literal (← u16))))
  | 0x84 => do
    let slot ← u8
    let amount ← i8
    plain (.iinc slot.toUInt16 (Int16.ofInt amount))
  | 0xa5 => jump (.ifACmp .eq (← rel16))
  | 0xa6 => jump (.ifACmp .ne (← rel16))
  | 0xa7 => jump (.goto (← rel16))
  | 0xa8 => jump (.jsr (← rel16))
  | 0xa9 => plain (.ret (← u8).toUInt16)
  | 0xaa => do
    skipPadding
    let default ← rel32
    let low ← i32
    let high ← i32
    if high < low then throw (.malformedAttribute "tableswitch")
    let targets ← many rel32 (high - low + 1).toNat
    jump (.tableSwitch default (Int32.ofInt low) targets)
  | 0xab => do
    skipPadding
    let default ← rel32
    let count ← i32
    if count < 0 then throw (.malformedAttribute "lookupswitch")
    let pairs ← many (do
      let key ← i32
      let target ← rel32
      pure (Int32.ofInt key, target)) count.toNat
    jump (.lookupSwitch default pairs)
  | 0xb1 => jump .returnVoid
  | 0xb2 => plain (.field .getStatic (← MonadExcept.ofExcept (pool.fieldRef (← u16))))
  | 0xb3 => plain (.field .putStatic (← MonadExcept.ofExcept (pool.fieldRef (← u16))))
  | 0xb4 => plain (.field .getField (← MonadExcept.ofExcept (pool.fieldRef (← u16))))
  | 0xb5 => plain (.field .putField (← MonadExcept.ofExcept (pool.fieldRef (← u16))))
  | 0xb6 => plain (.invoke .virtual (← MonadExcept.ofExcept (pool.methodRef (← u16))))
  | 0xb7 => plain (.invoke .special (← MonadExcept.ofExcept (pool.methodRef (← u16))))
  | 0xb8 => plain (.invoke .static (← MonadExcept.ofExcept (pool.methodRef (← u16))))
  | 0xb9 => do
    let method ← MonadExcept.ofExcept (pool.methodRef (← u16))
    -- the argument count and a zero byte, both implied by the descriptor
    discard (take 2)
    plain (.invoke .interface method)
  | 0xba => throw (.unsupportedInstruction offset "invokedynamic")
  | 0xbb => plain (.typeOp .new (← classOperand))
  | 0xbc => do
    match BaseType.ofArrayCode? (← u8) with
    | some element => plain (.newArray element)
    | none => throw (.malformedAttribute "newarray")
  | 0xbd => plain (.typeOp .aNewArray (← classOperand))
  | 0xbf => jump .athrow
  | 0xc0 => plain (.typeOp .checkCast (← classOperand))
  | 0xc1 => plain (.typeOp .instanceOf (← classOperand))
  | 0xc4 => do
    let widened ← u8
    let slot ← u16
    if 0x15 ≤ widened && widened ≤ 0x19 then
      plain (.load (SlotType.ofCode (widened - 0x15)) slot.toUInt16)
    else if 0x36 ≤ widened && widened ≤ 0x3a then
      plain (.store (SlotType.ofCode (widened - 0x36)) slot.toUInt16)
    else if widened == 0x84 then
      plain (.iinc slot.toUInt16 (Int16.ofInt (← i16)))
    else if widened == 0xa9 then
      plain (.ret slot.toUInt16)
    else throw (.unknownOpcode offset widened)
  | 0xc5 => do
    let element ← classOperand
    let dimensions ← u8
    plain (.multiANewArray element dimensions.toUInt8)
  | 0xc6 => jump (.ifNull .eq (← rel16))
  | 0xc7 => jump (.ifNull .ne (← rel16))
  | 0xc8 => jump (.goto (← rel32))
  | 0xc9 => jump (.jsr (← rel32))
  | other => throw (.unknownOpcode offset other)

/-- Reads instructions until `length` bytes are consumed; each instruction takes at least one
byte, so `rounds` of `length` suffice. -/
def readAll (pool : ConstantPool) (length : Nat) :
    Nat → Array (Nat × Decoded) → ByteReader (Array (Nat × Decoded))
  | 0, decoded => pure decoded
  | rounds + 1, decoded => do
    let offset ← ByteReader.position
    if offset < length then
      let entry ← read pool offset
      readAll pool length rounds (decoded.push (offset, entry))
    else pure decoded

end Decoded

namespace Body

/-- The offsets that need a label: branch targets, then the rows' boundaries and handlers, with
each checked against the instruction starts. -/
def labelOffsets (decoded : Array (Nat × Decoded)) (rows : List HandlerRow) (length : Nat) :
    Except ClassError (Array Bool) := do
  let isStart : Array Bool :=
    decoded.foldl (fun starts (offset, _) => starts.set! offset true) (Array.replicate length false)
  let startsAt (target : Int) : Bool := 0 ≤ target && isStart[target.toNat]?.getD false
  let marks ← decoded.foldlM (fun marks (offset, entry) =>
    match entry with
    | .branch branch => branch.targets.foldlM (fun marks target =>
        if startsAt target then .ok (marks.set! target.toNat true)
        else .error (.badBranchTarget offset target)) marks
    | .instruction _ => .ok marks) (Array.replicate (length + 1) false)
  rows.foldlM (fun marks row => do
    let bad (target : Nat) : ClassError := .badBranchTarget row.handlerPc target
    if !startsAt row.startPc || row.startPc ≥ row.endPc then throw (bad row.startPc)
    if !(startsAt row.endPc || row.endPc == length) then throw (bad row.endPc)
    if !startsAt row.handlerPc then throw (bad row.handlerPc)
    pure ((marks.set! row.startPc true).set! row.endPc true |>.set! row.handlerPc true)) marks

/-- Numbers the marked offsets in increasing order. -/
def numberLabels (marks : Array Bool) : Array (Option Label) :=
  (marks.foldl (fun (labels, next) marked =>
    if marked then (labels.push (some ⟨next⟩), next + 1) else (labels.push none, next))
    ((#[] : Array (Option Label)), 0)).1

/-- Reads the body held by a `Code` attribute. -/
def decode (pool : ConstantPool) (code : CodeAttribute) : Except ClassError Body := do
  let length := code.code.length
  let (decoded, _) ← (Decoded.readAll pool length length #[]).run code.code
  let marks ← labelOffsets decoded code.handlers length
  let labels := numberLabels marks
  let labelAt (offset : Int) : Label := (labels[offset.toNat]?.join).getD default
  let placed (offset : Nat) (entries : Array Entry) : Array Entry :=
    match labels[offset]?.join with
    | some label => entries.push (.label label)
    | none => entries
  let entries := decoded.foldl (fun entries (offset, entry) =>
    let entries := placed offset entries
    match entry with
    | .instruction instruction => entries.push (.instruction instruction)
    | .branch branch => entries.push (.branch (branch.map labelAt))) #[]
  let entries := placed length entries
  let handlers ← code.handlers.mapM fun row => do
    let catchType ← if row.catchIndex == 0 then pure none
      else some <$> pool.binaryName row.catchIndex
    pure { start := labelAt row.startPc, stop := labelAt row.endPc,
           target := labelAt row.handlerPc, catchType : Handler }
  pure { entries, handlers }

end Body

end ClassKit
