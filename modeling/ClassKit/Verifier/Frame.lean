import ClassKit.Verifier.Types
import ClassKit.Code.Instruction

/-!
# Frames and transfer rules

A frame holds the verification type of every local slot and of every operand stack entry. A
`long` or `double` is one stack entry but two local slots, the second of them `top`.

Each instruction has a transfer rule that checks the types it consumes and produces the types of
its results. Operands are popped from the top: for a binary operation the right operand first.
Stack instructions that do not care about types (`pop`, `dup`, `swap`, ...) move whole entries,
and fail with `invalidCategory` when they would split a `long` or `double`.

Two frames meeting at one position merge slot by slot; their stacks must have the same height.
-/

namespace ClassKit

/-- The types of the local slots and of the operand stack (top first). -/
structure Frame where
  locals : Array VerificationType
  stack : List VerificationType
  deriving DecidableEq, Inhabited, Repr

namespace VerificationType

/-- The type of the value of a literal. -/
def ofLiteral : Literal → VerificationType
  | .integer _ => integer
  | .float _ => float
  | .long _ => long
  | .double _ => double
  | .string _ | .classRef _ => reference

end VerificationType

namespace Frame

/-- The frame on entry to a method: the receiver of an instance method, then the parameters
(a wide one followed by `top`), then `top` up to `maxLocals` slots; the stack is empty. -/
def entry (isStatic : Bool) (parameters : List FieldType) (maxLocals : Nat) : Frame :=
  let receiver := if isStatic then [] else [VerificationType.reference]
  let params := parameters.flatMap fun parameter =>
    let type := VerificationType.ofFieldType parameter
    if type.width == 2 then [type, .top] else [type]
  let locals := receiver ++ params
  ⟨(locals ++ List.replicate (maxLocals - locals.length) VerificationType.top).toArray, []⟩

/-- The frame at the start of an exception handler: the same locals, and the exception alone on
the stack. -/
def forHandler (frame : Frame) : Frame := ⟨frame.locals, [.reference]⟩

/-- Merges slot lists pairwise, reporting whether any slot changed. -/
def mergeSlots : List VerificationType → List VerificationType → List VerificationType × Bool
  | mine :: rest, theirs :: others =>
    let (merged, changed) := mergeSlots rest others
    let slot := mine.merge theirs
    (slot :: merged, changed || slot != mine)
  | mine, _ => (mine, false)

/-- Merges an incoming frame into this one; the stacks must have the same height. -/
def merge (frame incoming : Frame) : Except VerifierFault (Frame × Bool) :=
  if frame.stack.length != incoming.stack.length then
    .error (.incompatibleStackHeights frame.stack.length incoming.stack.length)
  else
    let (stack, stackChanged) := mergeSlots frame.stack incoming.stack
    let (locals, localsChanged) := mergeSlots frame.locals.toList incoming.locals.toList
    .ok (⟨locals.toArray, stack⟩, stackChanged || localsChanged)

end Frame

/-- A transfer rule: a change of frame that may fail. -/
abbrev Transfer := StateT Frame (Except VerifierFault)

namespace Transfer

open VerificationType

/-- Pushes an entry. -/
def push (type : VerificationType) : Transfer Unit :=
  modify fun frame => { frame with stack := type :: frame.stack }

/-- Pushes entries given top first. -/
def pushAll (types : List VerificationType) : Transfer Unit :=
  modify fun frame => { frame with stack := types ++ frame.stack }

/-- Pops the top entry. -/
def pop : Transfer VerificationType := do
  let frame ← get
  match frame.stack with
  | [] => throw .emptyStack
  | first :: rest =>
    set { frame with stack := rest }
    pure first

/-- Pops the top entry, which must have the expected type. -/
def popExpecting (expected : VerificationType) : Transfer Unit := do
  let found ← pop
  if found != expected then throw (.incompatibleTypes expected found)

/-- Pops entries taking one or two slots in all (top first); a wide entry that would take more
than asked is an error. -/
def popSlots (slots : Nat) : Transfer (List VerificationType) := do
  let first ← pop
  if first.width > slots then throw (.invalidCategory first)
  if first.width == slots then pure [first]
  else
    let second ← pop
    if first.width + second.width > slots then throw (.invalidCategory second)
    pure [first, second]

/-- The type of a local slot. -/
def localType (slot : Nat) : Transfer VerificationType := do
  match (← get).locals[slot]? with
  | some type => pure type
  | none => throw (.invalidLocal slot)

/-- Checks that a local slot has the expected type. -/
def expectLocal (slot : Nat) (expected : VerificationType) : Transfer Unit := do
  let found ← localType slot
  if found != expected then throw (.incompatibleTypes expected found)

/-- Pushes a local of the expected type. -/
def load (slot : Nat) (type : VerificationType) : Transfer Unit := do
  expectLocal slot type
  push type

/-- Pops a value of the given type into a local. Overwriting the second half of a wide value
makes its first half `top`; a wide value makes its second slot `top`. -/
def store (slot : Nat) (type : VerificationType) : Transfer Unit := do
  popExpecting type
  let frame ← get
  if slot + type.width > frame.locals.size then throw (.invalidLocal slot)
  let locals := frame.locals
  let locals := match slot with
    | previous + 1 =>
      if (locals[previous]?.map VerificationType.width) == some 2 then locals.set! previous .top
      else locals
    | 0 => locals
  let locals := locals.set! slot type
  let locals := if type.width == 2 then locals.set! (slot + 1) .top else locals
  set { frame with locals }

/-- Pops one argument and pushes the result. -/
def unary (argument result : VerificationType) : Transfer Unit := do
  popExpecting argument
  push result

/-- Pops the right operand, then the left, and pushes the result. -/
def binary (left right result : VerificationType) : Transfer Unit := do
  popExpecting right
  popExpecting left
  push result

def arrayLoad (element : VerificationType) : Transfer Unit := do
  popExpecting integer
  popExpecting reference
  push element

def arrayStore (element : VerificationType) : Transfer Unit := do
  popExpecting element
  popExpecting integer
  popExpecting reference

/-- The type an array element of this kind has on the stack. -/
def elementType : ElementType → VerificationType
  | .int | .byte | .char | .short => integer
  | .long => long
  | .float => float
  | .double => double
  | .reference => reference

/-- The type of a value of a slot type. -/
def slotType : SlotType → VerificationType
  | .int => integer | .long => long | .float => float | .double => double
  | .reference => reference

/-- The type of a value of a number type. -/
def numType : NumType → VerificationType
  | .int => integer | .long => long | .float => float | .double => double

/-- The argument and result types of a conversion. -/
def conversionTypes : Conversion → VerificationType × VerificationType
  | .i2l => (integer, long) | .i2f => (integer, float) | .i2d => (integer, double)
  | .l2i => (long, integer) | .l2f => (long, float) | .l2d => (long, double)
  | .f2i => (float, integer) | .f2l => (float, long) | .f2d => (float, double)
  | .d2i => (double, integer) | .d2l => (double, long) | .d2f => (double, float)
  | .i2b | .i2c | .i2s => (integer, integer)

/-- The transfer rule of a stack instruction. -/
def stackOp : StackOp → Transfer Unit
  | .pop => discard (popSlots 1)
  | .pop2 => discard (popSlots 2)
  | .dup => do
    let upper ← popSlots 1
    pushAll (upper ++ upper)
  | .dupX1 => do
    let upper ← popSlots 1
    let under ← popSlots 1
    pushAll (upper ++ under ++ upper)
  | .dupX2 => do
    let upper ← popSlots 1
    let under ← popSlots 2
    pushAll (upper ++ under ++ upper)
  | .dup2 => do
    let upper ← popSlots 2
    pushAll (upper ++ upper)
  | .dup2X1 => do
    let upper ← popSlots 2
    let under ← popSlots 1
    pushAll (upper ++ under ++ upper)
  | .dup2X2 => do
    let upper ← popSlots 2
    let under ← popSlots 2
    pushAll (upper ++ under ++ upper)
  | .swap => do
    let upper ← popSlots 1
    let under ← popSlots 1
    pushAll (under ++ upper)

/-- Pops `count` integers. -/
def popIntegers : Nat → Transfer Unit
  | 0 => pure ()
  | count + 1 => do
    popExpecting integer
    popIntegers count

/-- The transfer rule of an instruction. -/
def instruction : Instruction → Transfer Unit
  | .nop => pure ()
  | .aconstNull => push reference
  | .iconst _ | .bipush _ | .sipush _ => push integer
  | .lconst _ => push long
  | .fconst _ => push float
  | .dconst _ => push double
  | .ldc literal => push (ofLiteral literal)
  | .load type slot => load slot.toNat (slotType type)
  | .store .reference slot => do
    -- a subroutine stashes its return address with astore
    let type := match (← get).stack with
      | .returnAddress :: _ => returnAddress
      | _ => reference
    store slot.toNat type
  | .store type slot => store slot.toNat (slotType type)
  | .arrayLoad element => arrayLoad (elementType element)
  | .arrayStore element => arrayStore (elementType element)
  | .stack op => stackOp op
  | .arith _ type => binary (numType type) (numType type) (numType type)
  | .bitwise _ isLong => if isLong then binary long long long else binary integer integer integer
  | .shift _ isLong => if isLong then binary long integer long else binary integer integer integer
  | .neg type => unary (numType type) (numType type)
  | .convert conversion =>
    let (argument, result) := conversionTypes conversion
    unary argument result
  | .iinc slot _ => expectLocal slot.toNat integer
  | .lcmp => binary long long integer
  | .fcmp _ => binary float float integer
  | .dcmp _ => binary double double integer
  | .field .getStatic ref => push (ofFieldType ref.descriptor)
  | .field .putStatic ref => popExpecting (ofFieldType ref.descriptor)
  | .field .getField ref => do
    popExpecting reference
    push (ofFieldType ref.descriptor)
  | .field .putField ref => do
    popExpecting (ofFieldType ref.descriptor)
    popExpecting reference
  | .invoke kind ref => do
    for parameter in ref.descriptor.parameters.reverse do
      popExpecting (ofFieldType parameter)
    if kind != .static then popExpecting reference
    match ref.descriptor.returnType with
    | some type => push (ofFieldType type)
    | none => pure ()
  | .typeOp .new _ => push reference
  | .newArray _ | .typeOp .aNewArray _ => unary integer reference
  | .arrayLength => unary reference integer
  | .typeOp .checkCast _ => unary reference reference
  | .typeOp .instanceOf _ => unary reference integer
  | .monitorEnter | .monitorExit => popExpecting reference
  | .multiANewArray _ dimensions => do
    popIntegers dimensions.toNat
    push reference
  | .ret slot => expectLocal slot.toNat returnAddress

/-- Pops a return value of the given type, which must be the method's return type. -/
def returning (returnType : Option FieldType) (type : VerificationType) : Transfer Unit :=
  match returnType with
  | some declared => if ofFieldType declared == type then popExpecting type else throw .invalidReturn
  | none => throw .invalidReturn

/-- The transfer rule of a branch, in a method with the given return type. -/
def branch (returnType : Option FieldType) : Branch Label → Transfer Unit
  | .ifZero .. | .tableSwitch .. | .lookupSwitch .. => popExpecting integer
  | .ifICmp .. => do
    popExpecting integer
    popExpecting integer
  | .ifACmp .. => do
    popExpecting reference
    popExpecting reference
  | .ifNull .. | .athrow => popExpecting reference
  | .goto _ | .jsr _ => pure ()
  | .returnValue type => returning returnType (slotType type)
  | .returnVoid => if returnType.isSome then throw .invalidReturn else pure ()

end Transfer

end ClassKit
