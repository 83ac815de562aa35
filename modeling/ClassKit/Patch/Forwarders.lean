import ClassKit.Class.Basic
import ClassKit.Patch.Settings

/-!
# Forwarding method variants

An obfuscator clones methods with shuffled parameters and extra dummy parameters that only
change the signature. The body of each variant is replaced by a call to the original method, so
only the original is left to patch:

```text
aload 0
<each original parameter: the dummy value, or the variant parameter that feeds it>
invokevirtual Owner.original
<return of the original's type>
```

Without an argument mapping the variant's parameters feed the original's in order, skipping the
variant's own dummy; this is only trusted for at most two real parameters.
-/

namespace ClassKit

namespace Forwarder

/-- The most parameters matched up by position without an argument mapping. -/
def maxPositional : Nat := 2

/-- The instruction pushing a dummy argument of the given type. -/
def pushDummy (parameter : FieldType) (value : Int) : Except String Instruction :=
  match parameter with
  | .base base =>
    if base.isIntLike then
      if -2147483648 ≤ value && value ≤ 2147483647 then .ok (Instruction.pushInt (Int32.ofInt value))
      else .error s!"dummy value {value} does not fit in an int"
    else if base == .long then
      .ok (if value == 0 then .lconst ⟨0, Nat.two_pos⟩ else if value == 1 then .lconst ⟨1, Nat.one_lt_two⟩
        else .ldc (.long (Int64.ofInt value)))
    else .error s!"dummy parameter of type {parameter.render} is not supported"
  | .ref _ => .error s!"dummy parameter of type {parameter.render} is not supported"

/-- The instruction loading a parameter of the given type from a local slot. -/
def load (parameter : FieldType) (slot : UInt16) : Instruction :=
  match parameter with
  | .base .long => .load .long slot
  | .base .float => .load .float slot
  | .base .double => .load .double slot
  | .base _ => .load .int slot
  | .ref _ => .load .reference slot

/-- The return of a value of the given type. -/
def returning : Option FieldType → Branch Label
  | none => .returnVoid
  | some (.base .long) => .returnValue .long
  | some (.base .float) => .returnValue .float
  | some (.base .double) => .returnValue .double
  | some (.base _) => .returnValue .int
  | some (.ref _) => .returnValue .reference

/-- The local slots of parameters placed one after another from slot `next` on. -/
def slotsFrom (next : Nat) : List FieldType → List Nat
  | [] => []
  | parameter :: rest => next :: slotsFrom (next + parameter.width) rest

/-- The local slots of parameters after the receiver in slot 0. -/
def slots (parameters : List FieldType) : List Nat := slotsFrom 1 parameters

/-- The variant parameter feeding original parameter `index`, and the next position counted when
the parameters are matched up by position. -/
def source (variant : MethodInfo) (index positional : Nat) : Except String (Nat × Nat) :=
  match variant.argMapping with
  | some mapping => match mapping[index]? with
    | some source => pure (source, positional)
    | none => throw s!"no mapping for parameter {index}"
  | none =>
    let skipped := if variant.dummyIndex == some positional then positional + 1 else positional
    pure (skipped, skipped + 1)

/-- The instruction pushing original parameter `index` of type `parameter`: the dummy value, or
the variant parameter that feeds it loaded from its slot; and the next position. -/
def argument (original variant : MethodInfo) (positional : Nat) (parameter : FieldType)
    (index : Nat) : Except String (Instruction × Nat) := do
  if original.dummyIndex == some index then
    let push ← pushDummy parameter (original.dummyValue.getD 0)
    pure (push, positional)
  else
    let (source, positional) ← Forwarder.source variant index positional
    let variantParameters := variant.descriptor.parameters
    match (slots variantParameters)[source]?, variantParameters[source]? with
    | some slot, some type =>
      if slot > 65535 then throw "too many parameters"
      pure (load type slot.toUInt16, positional)
    | _, _ => throw s!"variant has no parameter {source}"

/-- Adds the instruction pushing one more original parameter. -/
def addArgument (original variant : MethodInfo) (state : Array Instruction × Nat)
    (parameter : FieldType × Nat) : Except String (Array Instruction × Nat) := do
  let (push, positional) ← argument original variant state.2 parameter.1 parameter.2
  pure (state.1.push push, positional)

/-- How many of the original's parameters are its dummy: one if its dummy index is one of them. -/
def dummyCount (original : MethodInfo) : Nat :=
  match original.dummyIndex with
  | some index => if index < original.descriptor.parameters.length then 1 else 0
  | none => 0

/-- The body of a variant that forwards to the original method of class `owner`. -/
def body (owner : BinaryName) (original variant : MethodInfo) : Except String Body := do
  let originalParameters := original.descriptor.parameters
  let realParameters := originalParameters.length - dummyCount original
  if variant.argMapping.isNone && realParameters > maxPositional then
    throw s!"{realParameters} parameters cannot be matched up by position, an argument mapping is needed"
  let (arguments, _) ← originalParameters.zipIdx.foldlM (addArgument original variant)
    ((#[] : Array Instruction), 0)
  let call := Instruction.invoke .virtual
    { owner := .object owner, name := original.name, descriptor := original.descriptor,
      isInterface := false }
  let entries := #[Entry.instruction (.load .reference 0)] ++ arguments.map Entry.instruction ++
    #[Entry.instruction call, Entry.branch (returning original.descriptor.returnType)]
  pure { entries, handlers := [] }

end Forwarder

namespace Class

/-- The first method with this name and descriptor. -/
def findInfo? (cls : Class) (info : MethodInfo) : Option Method :=
  cls.methods.find? fun method => method.name == info.name && method.descriptor == info.descriptor

/-- Gives the first of the methods with this name and descriptor a new body. -/
def replaceBody (info : MethodInfo) (body : Body) : List Method → List Method
  | [] => []
  | method :: rest =>
    if method.name == info.name && method.descriptor == info.descriptor then
      { method with body := some body } :: rest
    else method :: replaceBody info body rest

/-- Replaces the body of a variant with a call forwarding to the original method, after checking
that both exist, that neither is static, that the variant has a body and that both return the
same type. -/
def forwardVariant (cls : Class) (original variant : MethodInfo) : Except String Class := do
  let describe (info : MethodInfo) : String :=
    s!"{cls.name.text}.{info.name.text}{info.descriptor.render}"
  let some originalMethod := cls.findInfo? original
    | throw s!"couldn't find original method {describe original}"
  if originalMethod.isStatic then throw s!"original method {describe original} is static"
  let some variantMethod := cls.findInfo? variant
    | throw s!"couldn't find variant method {describe variant}"
  if variantMethod.isStatic || variantMethod.body.isNone then
    throw s!"variant method {describe variant} is static or has no body"
  if variant.descriptor.returnType != original.descriptor.returnType then
    throw s!"variant {describe variant} does not return the same type as {describe original}"
  let body ← (Forwarder.body cls.name original variant).mapError fun problem =>
    s!"couldn't forward {describe variant} to {describe original}: {problem}"
  pure { cls with methods := replaceBody variant body cls.methods }

end Class

end ClassKit
