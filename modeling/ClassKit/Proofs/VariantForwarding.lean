import ClassKit.Patch.Forwarders
import ClassKit.Proofs.StraightVerification
import ClassKit.Proofs.StackEffects
import Mathlib

/-!
# Forwarding method variants

`Class.forwardVariant` gives the first method with the variant's name and descriptor a body that
calls the original method: the receiver, then each original parameter (the dummy value at the
original's dummy index, else the variant parameter feeding it, loaded from its slot), the
`invokevirtual`, and the return of the shared return type.

Only the return types of the two methods are compared. The installed body passes verification
exactly when every variant parameter has the verification type of the original parameter it
feeds (`Forwarder.TypesAgree`); a variant `g(F)V` forwarded to `f(I)V` is installed all the same,
and then loads a `float` where the call takes an `int`.
-/

namespace ClassKit

/-! ## What the forwarder's instructions do to a frame -/

namespace Transfer

open VerificationType

theorem load_run {locals : Array VerificationType} {slot : Nat} {type : VerificationType}
    (found : locals[slot]? = some type) (stack : List VerificationType) :
    (load slot type).run ⟨locals, stack⟩ = .ok ((), ⟨locals, type :: stack⟩) := by
  simp [load, expectLocal, localType, push, found]
  rfl

theorem popExpecting_run (expected found : VerificationType) (locals : Array VerificationType)
    (rest : List VerificationType) :
    (popExpecting expected).run ⟨locals, found :: rest⟩ =
      if found = expected then .ok ((), ⟨locals, rest⟩)
      else .error (.incompatibleTypes expected found) := by
  by_cases same : found = expected
  · subst same
    simp [popExpecting, pop]
    rfl
  · simp [popExpecting, pop, same]
    rfl

theorem pushInt_run (value : Int32) (frame : Frame) :
    (instruction (Instruction.pushInt value)).run frame =
      .ok ((), { frame with stack := integer :: frame.stack }) := by
  unfold Instruction.pushInt
  split
  · rfl
  · split
    · rfl
    · split
      · rfl
      · rfl

theorem ofFieldType_of_intLike {base : BaseType} (intLike : base.isIntLike = true) :
    ofFieldType (.base base) = integer := by
  cases base <;> simp_all [BaseType.isIntLike, ofFieldType]

/-- A dummy pushes a value of its parameter's type. -/
theorem pushDummy_run {parameter : FieldType} {value : Int} {push : Instruction}
    (pushed : Forwarder.pushDummy parameter value = .ok push) (frame : Frame) :
    (instruction push).run frame =
      .ok ((), { frame with stack := ofFieldType parameter :: frame.stack }) := by
  unfold Forwarder.pushDummy at pushed
  cases parameter with
  | ref _ => cases pushed
  | base base =>
    dsimp only at pushed
    split at pushed
    · -- an `int` constant
      rename_i intLike
      split at pushed
      · cases pushed
        rw [pushInt_run, ofFieldType_of_intLike intLike]
      · cases pushed
    · split at pushed
      · -- a `long` constant
        rename_i isLong
        cases beq_iff_eq.mp isLong
        cases pushed
        split
        · rfl
        · split <;> rfl
      · cases pushed

/-- A parameter is loaded with the instruction of its type. -/
theorem instruction_load (type : FieldType) (slot : UInt16) :
    instruction (Forwarder.load type slot) = Transfer.load slot.toNat (ofFieldType type) := by
  cases type with
  | base base => cases base <;> rfl
  | ref _ => rfl

/-- Popping the expected types of `expected`, first to last, succeeds exactly when the stack
holds them on top, and leaves what is below. -/
theorem forIn_popExpecting_run_iff (locals : Array VerificationType) :
    ∀ (expected : List FieldType) (found rest : List VerificationType) (frame : Frame),
      found.length = expected.length →
      ((forIn expected PUnit.unit fun parameter _ => do
          popExpecting (ofFieldType parameter)
          Pure.pure (ForInStep.yield PUnit.unit)).run ⟨locals, found ++ rest⟩ = .ok (PUnit.unit, frame) ↔
        found = expected.map ofFieldType ∧ frame = ⟨locals, rest⟩)
  | [], found, rest, frame, length => by
    cases List.length_eq_zero_iff.mp length
    constructor
    · intro ran
      cases ran
      exact ⟨rfl, rfl⟩
    · rintro ⟨-, rfl⟩
      rfl
  | parameter :: more, found, rest, frame, length => by
    obtain ⟨first, below, rfl⟩ := List.exists_cons_of_length_eq_add_one length
    simp only [List.forIn_cons, bind_assoc, pure_bind, List.cons_append, StateT.run_bind,
      popExpecting_run, List.map_cons, List.cons.injEq]
    by_cases same : first = ofFieldType parameter
    · -- the first pop succeeds, and the rest pops the others
      rw [if_pos same]
      refine (forIn_popExpecting_run_iff locals more below rest frame (Nat.succ.inj length)).trans ?_
      constructor
      · rintro ⟨popped, left⟩
        exact ⟨⟨same, popped⟩, left⟩
      · rintro ⟨⟨-, popped⟩, left⟩
        exact ⟨popped, left⟩
    · rw [if_neg same]
      constructor
      · intro ran
        cases ran
      · rintro ⟨⟨wrong, -⟩, -⟩
        exact absurd wrong same

theorem expectLocal_keeps {slot : Nat} {type : VerificationType} {frame after : Frame}
    (ran : (expectLocal slot type).run frame = .ok ((), after)) : after = frame := by
  unfold expectLocal localType at ran
  obtain ⟨found, between, got, checked⟩ := run_bind_ok ran
  obtain ⟨current, between', gotFrame, matched⟩ := run_bind_ok got
  cases gotFrame
  split at matched
  · cases matched
    split at checked
    · cases checked
    · cases checked
      rfl
  · cases matched

/-- `ret` only checks a local, so an instruction whose rule pushes a value is not `ret`. -/
theorem ne_ret_of_pushes {push : Instruction} {frame : Frame} {type : VerificationType}
    (ran : (instruction push).run frame = .ok ((), { frame with stack := type :: frame.stack }))
    (slot : UInt16) : push ≠ .ret slot := by
  rintro rfl
  have kept := congrArg (fun frame => frame.stack.length) (expectLocal_keeps ran)
  simp at kept

theorem exists_run_bind_of_ok {first : Transfer Unit} {rest : Unit → Transfer Unit}
    {frame middle : Frame} (ran : first.run frame = .ok ((), middle)) :
    (∃ after, (first >>= rest).run frame = .ok ((), after)) ↔
      ∃ after, (rest ()).run middle = .ok ((), after) := by
  rw [StateT.run_bind, ran]
  rfl

/-- A call of an instance method pops its arguments, last first, then the receiver, and pushes
its result; the arguments must have the parameters' types. -/
theorem invoke_run_iff (locals : Array VerificationType) (ref : MethodRef)
    (found : List VerificationType) (length : found.length = ref.descriptor.parameters.length)
    (frame : Frame) :
    (instruction (.invoke .virtual ref)).run ⟨locals, found ++ [reference]⟩ = .ok ((), frame) ↔
      found = (ref.descriptor.parameters.map ofFieldType).reverse ∧
        frame = ⟨locals, (ref.descriptor.returnType.map ofFieldType).toList⟩ := by
  obtain ⟨owner, name, ⟨parameters, returnType⟩, isInterface⟩ := ref
  dsimp only [instruction]
  rw [StateT.run_bind, ← List.map_reverse]
  have popping := forIn_popExpecting_run_iff locals parameters.reverse found [reference]
    ⟨locals, [reference]⟩ (by simpa using length)
  cases popped : (forIn parameters.reverse PUnit.unit fun parameter _ => do
      popExpecting (ofFieldType parameter)
      Pure.pure (ForInStep.yield PUnit.unit)).run ⟨locals, found ++ [reference]⟩ with
  | error fault =>
    -- the arguments do not have the parameters' types
    rw [popped] at popping
    constructor
    · intro ran
      cases ran
    · rintro ⟨same, -⟩
      cases popping.mpr ⟨same, rfl⟩
  | ok result =>
    obtain ⟨⟨⟩, popped'⟩ := result
    obtain ⟨same, rfl⟩ := (forIn_popExpecting_run_iff locals parameters.reverse found [reference]
      popped' (by simpa using length)).mp popped
    -- then the receiver, and the result
    constructor
    · intro ran
      cases returnType <;> cases ran <;> exact ⟨same, rfl⟩
    · rintro ⟨-, rfl⟩
      cases returnType <;> rfl

theorem returning_run (locals : Array VerificationType) (returnType : Option FieldType) :
    (branch returnType (Forwarder.returning returnType)).run
      ⟨locals, (returnType.map ofFieldType).toList⟩ = .ok ((), ⟨locals, []⟩) := by
  rcases returnType with _ | (base | _)
  · rfl
  · cases base <;> rfl
  · rfl
end Transfer

namespace Forwarder

/-! ## Slots and positions -/

/-- The slot of parameter `position`: one after the receiver, plus the widths of the parameters
before it. -/
def slotOf (parameters : List FieldType) (position : Nat) : Nat :=
  1 + ((parameters.take position).map FieldType.width).foldr (· + ·) 0

theorem getElem?_slotsFrom :
    ∀ (parameters : List FieldType) (next position : Nat),
      (slotsFrom next parameters)[position]? =
        if position < parameters.length then
          some (next + ((parameters.take position).map FieldType.width).foldr (· + ·) 0)
        else none
  | [], _, _ => rfl
  | parameter :: rest, next, 0 => by simp [slotsFrom]
  | parameter :: rest, next, position + 1 => by
    simp only [slotsFrom, List.getElem?_cons_succ, getElem?_slotsFrom rest, List.length_cons,
      Nat.add_lt_add_iff_right, List.take_succ_cons, List.map_cons, List.foldr_cons, Nat.add_assoc]

theorem getElem?_slots (parameters : List FieldType) (position : Nat) :
    (slots parameters)[position]? =
      if position < parameters.length then some (slotOf parameters position) else none :=
  getElem?_slotsFrom parameters 1 position

/-- The place of parameter `index` among the parameters other than the dummy at `dummy`. -/
def realPosition (dummy : Option Nat) (index : Nat) : Nat :=
  match dummy with
  | some dummy => if dummy < index then index - 1 else index
  | none => index

/-- The parameter at place `position` among those other than the dummy at `dummy`. -/
def realParameter (dummy : Option Nat) (position : Nat) : Nat :=
  match dummy with
  | some dummy => if dummy ≤ position then position + 1 else position
  | none => position

/-- The variant parameter feeding original parameter `index`: the one the argument mapping names,
or else the variant's `k`-th parameter other than its dummy for the original's `k`-th. -/
def sourceOf (original variant : MethodInfo) (index : Nat) : Option Nat :=
  match variant.argMapping with
  | some mapping => mapping[index]?
  | none => some (realParameter variant.dummyIndex (realPosition original.dummyIndex index))

/-- The position counter once `count` parameters were matched up by position: past the
variant's dummy it is one ahead. -/
def counterAfter (dummy : Option Nat) (count : Nat) : Nat :=
  match dummy with
  | some dummy => if dummy < count then count + 1 else count
  | none => count

theorem realPosition_succ_of_dummy {dummy : Option Nat} {index : Nat} (atDummy : dummy = some index) :
    realPosition dummy (index + 1) = realPosition dummy index := by
  subst atDummy
  simp [realPosition]

theorem realPosition_succ_of_ne {dummy : Option Nat} {index : Nat} (away : dummy ≠ some index) :
    realPosition dummy (index + 1) = realPosition dummy index + 1 := by
  cases dummy with
  | none => rfl
  | some dummy =>
    have different : dummy ≠ index := fun same => away (congrArg some same)
    simp only [realPosition]
    split_ifs <;> omega

/-- Matching up by position takes the next variant parameter, skipping the variant's dummy. -/
theorem source_positional {variant : MethodInfo} (positional : variant.argMapping = none)
    (index count : Nat) :
    source variant index (counterAfter variant.dummyIndex count) =
      .ok (realParameter variant.dummyIndex count, counterAfter variant.dummyIndex (count + 1)) := by
  unfold source
  rw [positional]
  cases variant.dummyIndex with
  | none => rfl
  | some dummy =>
    simp only [counterAfter, realParameter, Option.some_beq_some, beq_iff_eq]
    -- the counter stands on the dummy only when the count has just reached it
    rcases Nat.lt_trichotomy dummy count with passed | reached | ahead
    · simp (disch := omega) only [if_pos, if_neg]
      rfl
    · subst reached
      simp (disch := omega) only [if_pos, if_neg]
      rfl
    · simp (disch := omega) only [if_pos, if_neg]
      rfl

/-! ## The arguments -/

/-- What the forwarder pushes for original parameter `index` of type `parameter`: the dummy value
at the original's dummy index, else the variant parameter feeding it, loaded from its slot. -/
inductive Argument (original variant : MethodInfo) (index : Nat) (parameter : FieldType) :
    Instruction → Prop
  | dummy {push : Instruction} : original.dummyIndex = some index →
      pushDummy parameter (original.dummyValue.getD 0) = .ok push →
      Argument original variant index parameter push
  | forwarded {source : Nat} {type : FieldType} : original.dummyIndex ≠ some index →
      sourceOf original variant index = some source →
      variant.descriptor.parameters[source]? = some type →
      slotOf variant.descriptor.parameters source ≤ 65535 →
      Argument original variant index parameter
        (load type (slotOf variant.descriptor.parameters source).toUInt16)

/-- Without an argument mapping, the position counter before original parameter `index` has
passed the parameters before it that are not the dummy. -/
def Counted (original variant : MethodInfo) (index positional : Nat) : Prop :=
  variant.argMapping = none →
    positional = counterAfter variant.dummyIndex (realPosition original.dummyIndex index)

/-- The variant parameter that feeds a parameter other than the dummy is the one `sourceOf`
names, and the counter moves on past it. -/
theorem source_ok {original variant : MethodInfo} {index positional source' positional' : Nat}
    (away : original.dummyIndex ≠ some index) (counted : Counted original variant index positional)
    (found : source variant index positional = .ok (source', positional')) :
    sourceOf original variant index = some source' ∧
      Counted original variant (index + 1) positional' := by
  cases mapping : variant.argMapping with
  | some mapping' =>
    -- a mapping names the source, and the counter is not used
    unfold source at found
    rw [mapping] at found
    dsimp only at found
    cases entry : mapping'[index]? with
    | none =>
      rw [entry] at found
      cases found
    | some named =>
      rw [entry] at found
      cases found
      refine ⟨?_, fun unmapped => ?_⟩
      · simp only [sourceOf, mapping, entry]
      · rw [mapping] at unmapped
        cases unmapped
  | none =>
    rw [counted mapping, source_positional mapping] at found
    cases found
    refine ⟨by simp only [sourceOf, mapping], fun _ => ?_⟩
    rw [realPosition_succ_of_ne away]

/-- One argument: what it pushes is the `Argument` of its parameter. -/
theorem argument_ok {original variant : MethodInfo} {positional positional' index : Nat}
    {parameter : FieldType} {push : Instruction} (counted : Counted original variant index positional)
    (built : argument original variant positional parameter index = .ok (push, positional')) :
    Argument original variant index parameter push ∧ Counted original variant (index + 1) positional' := by
  unfold argument at built
  by_cases atDummy : original.dummyIndex = some index
  · rw [if_pos (beq_iff_eq.mpr atDummy)] at built
    obtain ⟨pushed, dummyPushed, built⟩ := bind_eq_ok built
    cases built
    refine ⟨.dummy atDummy dummyPushed, fun positional => ?_⟩
    rw [realPosition_succ_of_dummy atDummy]
    exact counted positional
  · rw [if_neg (fun same => atDummy (beq_iff_eq.mp same))] at built
    obtain ⟨⟨source', positional''⟩, found, built⟩ := bind_eq_ok built
    obtain ⟨sourced, counted'⟩ := source_ok atDummy counted found
    dsimp only at built
    rw [getElem?_slots] at built
    by_cases inside : source' < variant.descriptor.parameters.length
    · rw [if_pos inside, List.getElem?_eq_getElem inside] at built
      dsimp only at built
      by_cases tooFar : slotOf variant.descriptor.parameters source' > 65535
      · rw [if_pos tooFar] at built
        cases built
      · rw [if_neg tooFar] at built
        cases built
        exact ⟨.forwarded atDummy sourced (List.getElem?_eq_getElem inside) (by omega), counted'⟩
    · rw [if_neg inside] at built
      cases built

theorem addArgument_ok {original variant : MethodInfo} {pushes : Array Instruction}
    {positional index : Nat} {parameter : FieldType} {next : Array Instruction × Nat}
    (built : addArgument original variant (pushes, positional) (parameter, index) = .ok next) :
    ∃ push positional', argument original variant positional parameter index = .ok (push, positional') ∧
      next = (pushes.push push, positional') := by
  unfold addArgument at built
  obtain ⟨⟨push, positional'⟩, pushed, built⟩ := bind_eq_ok built
  cases built
  exact ⟨push, positional', pushed, rfl⟩

/-- **The arguments.** Building the pushes for parameters numbered from `index` on adds one
`Argument` per parameter, in order. -/
theorem foldlM_addArgument (original variant : MethodInfo) :
    ∀ (parameters : List FieldType) (index : Nat) (pushes : Array Instruction) (positional : Nat)
      (result : Array Instruction × Nat),
      Counted original variant index positional →
      (parameters.zipIdx index).foldlM (addArgument original variant) (pushes, positional) = .ok result →
      ∃ added : List Instruction, result.1.toList = pushes.toList ++ added ∧
        added.length = parameters.length ∧
        ∀ offset parameter push, parameters[offset]? = some parameter → added[offset]? = some push →
          Argument original variant (index + offset) parameter push
  | [], _, pushes, positional, result, _, built => by
    cases built
    exact ⟨[], by simp, rfl, fun offset parameter push found _ => by cases found⟩
  | parameter :: rest, index, pushes, positional, result, counted, built => by
    rw [List.zipIdx_cons, List.foldlM_cons] at built
    obtain ⟨next, added, built⟩ := bind_eq_ok built
    obtain ⟨push, positional', pushed, rfl⟩ := addArgument_ok added
    obtain ⟨argument, counted'⟩ := argument_ok counted pushed
    obtain ⟨more, extended, length, arguments⟩ :=
      foldlM_addArgument original variant rest (index + 1) (pushes.push push) positional' result counted' built
    refine ⟨push :: more, by simp [extended], by simp [length], ?_⟩
    intro offset parameter' push' found found'
    cases offset with
    | zero =>
      cases found
      cases found'
      exact argument
    | succ offset =>
      rw [show index + (offset + 1) = index + 1 + offset by omega]
      exact arguments offset parameter' push' found found'

/-! ## The forwarding body -/

/-- `body` forwards to the original method of class `owner`: it loads the receiver, pushes one
`Argument` per original parameter, calls the original with `invokevirtual` and returns what it
returns; it has no handlers. -/
def Forwards (owner : BinaryName) (original variant : MethodInfo) (body : Body) : Prop :=
  body.handlers = [] ∧ ∃ arguments : List Instruction,
    body.entries.toList = (Instruction.load .reference 0 :: arguments ++
        [Instruction.invoke .virtual ⟨.object owner, original.name, original.descriptor, false⟩]).map
          Entry.instruction ++
      [.branch (returning original.descriptor.returnType)] ∧
    arguments.length = original.descriptor.parameters.length ∧
    ∀ index parameter push, original.descriptor.parameters[index]? = some parameter →
      arguments[index]? = some push → Argument original variant index parameter push

theorem counted_zero (original variant : MethodInfo) : Counted original variant 0 0 := by
  intro _
  cases original.dummyIndex <;> cases variant.dummyIndex <;> rfl

/-- **The forwarding body.** A body built for a variant forwards to the original. -/
theorem body_forwards {owner : BinaryName} {original variant : MethodInfo} {body : Body}
    (built : Forwarder.body owner original variant = .ok body) : Forwards owner original variant body := by
  unfold Forwarder.body at built
  dsimp only at built
  -- past the check that positional matching is trusted
  split at built
  · cases built
  obtain ⟨⟨arguments, positional⟩, folded, built⟩ := bind_eq_ok built
  cases built
  obtain ⟨added, listed, length, each⟩ := foldlM_addArgument original variant
    original.descriptor.parameters 0 #[] 0 (arguments, positional) (counted_zero original variant) folded
  refine ⟨rfl, added, ?_, length, fun index => by simpa using each index⟩
  simp only at listed
  simp [listed]

/-! ## Typing the forwarding body -/

end Forwarder

namespace Frame

open VerificationType

theorem length_entrySlots (parameter : FieldType) :
    (if (ofFieldType parameter).width == 2 then [ofFieldType parameter, VerificationType.top]
      else [ofFieldType parameter]).length = parameter.width := by
  rw [← width_ofFieldType]
  generalize ofFieldType parameter = type
  cases type <;> rfl

/-- In the slots of the parameters, each parameter's type stands after the widths of those
before it. -/
theorem getElem?_entrySlots :
    ∀ (parameters : List FieldType) (position : Nat) (type : FieldType),
      parameters[position]? = some type →
      (parameters.flatMap fun parameter =>
          if (ofFieldType parameter).width == 2 then [ofFieldType parameter, VerificationType.top]
          else [ofFieldType parameter])[
          ((parameters.take position).map FieldType.width).foldr (· + ·) 0]? = some (ofFieldType type)
  | [], _, _, found => by cases found
  | parameter :: rest, 0, type, found => by
    cases found
    simp only [List.flatMap_cons, List.take_zero, List.map_nil, List.foldr_nil]
    split <;> rfl
  | parameter :: rest, position + 1, type, found => by
    rw [List.flatMap_cons, List.take_succ_cons, List.map_cons, List.foldr_cons,
      List.getElem?_append_right (by rw [length_entrySlots]; omega), length_entrySlots,
      Nat.add_sub_cancel_left]
    exact getElem?_entrySlots rest position type found

/-- The entry frame of an instance method holds the receiver in slot 0 and each parameter's type
in its slot. -/
theorem entry_locals (parameters : List FieldType) (maxLocals : Nat) :
    (entry false parameters maxLocals).locals[0]? = some reference ∧
      ∀ position type, parameters[position]? = some type →
        (entry false parameters maxLocals).locals[Forwarder.slotOf parameters position]? =
          some (ofFieldType type) := by
  constructor
  · simp [entry]
  · intro position type found
    have slot := getElem?_entrySlots parameters position type found
    have inside := (List.getElem?_eq_some_iff.mp slot).1
    simp only [entry, Forwarder.slotOf, Bool.false_eq_true, if_false, List.getElem?_toArray,
      List.cons_append, List.nil_append, Nat.add_comm 1,
      List.getElem?_cons_succ]
    rw [List.getElem?_append_left inside, slot]

end Frame

namespace Forwarder

/-- Original parameter `index` of type `parameter` is handed a value the verifier sees as of its
type: it is the dummy, or the variant parameter feeding it has the same verification type. -/
def AgreesAt (original variant : MethodInfo) (index : Nat) (parameter : FieldType) : Prop :=
  original.dummyIndex = some index ∨
    ((sourceOf original variant index).bind fun source => variant.descriptor.parameters[source]?).map
      VerificationType.ofFieldType = some (VerificationType.ofFieldType parameter)

instance (original variant : MethodInfo) (index : Nat) (parameter : FieldType) :
    Decidable (AgreesAt original variant index parameter) :=
  inferInstanceAs (Decidable (_ ∨ _))

/-- Every original parameter is handed a value of its verification type. Only the return types
are checked before a forwarder is installed, so this may fail. -/
def TypesAgree (original variant : MethodInfo) : Prop :=
  ∀ index (inside : index < original.descriptor.parameters.length),
    AgreesAt original variant index original.descriptor.parameters[index]

instance (original variant : MethodInfo) : Decidable (TypesAgree original variant) :=
  inferInstanceAs (Decidable (∀ index (inside : index < original.descriptor.parameters.length),
    AgreesAt original variant index original.descriptor.parameters[index]))

theorem typesAgree_iff {original variant : MethodInfo} :
    TypesAgree original variant ↔ ∀ index parameter,
      original.descriptor.parameters[index]? = some parameter → AgreesAt original variant index parameter := by
  constructor
  · intro agree index parameter found
    obtain ⟨inside, rfl⟩ := List.getElem?_eq_some_iff.mp found
    exact agree index inside
  · intro agree index inside
    exact agree index _ (List.getElem?_eq_getElem inside)

theorem toNat_toUInt16_of_le {slot : Nat} (fits : slot ≤ 65535) : slot.toUInt16.toNat = slot := by
  rw [Nat.toUInt16_eq, UInt16.toNat_ofNat']
  exact Nat.mod_eq_of_lt (by norm_num; omega)

open VerificationType in
/-- **One argument pushes one type**: the dummy's own, or that of the variant parameter it loads;
it is the parameter's type exactly when the parameter is handed a value of its type. -/
theorem Argument.run {original variant : MethodInfo} {index : Nat} {parameter : FieldType}
    {push : Instruction} (argument : Argument original variant index parameter push)
    {locals : Array VerificationType}
    (slotsTyped : ∀ position type, variant.descriptor.parameters[position]? = some type →
      locals[slotOf variant.descriptor.parameters position]? = some (ofFieldType type))
    (stack : List VerificationType) :
    ∃ type, (Transfer.instruction push).run ⟨locals, stack⟩ = .ok ((), ⟨locals, type :: stack⟩) ∧
      (type = ofFieldType parameter ↔ AgreesAt original variant index parameter) := by
  cases argument with
  | dummy atDummy pushed =>
    exact ⟨ofFieldType parameter, Transfer.pushDummy_run pushed _, iff_of_true rfl (.inl atDummy)⟩
  | forwarded away sourced typed fits =>
    rename_i source type
    refine ⟨ofFieldType type, ?_, ?_⟩
    · rw [Transfer.instruction_load, toNat_toUInt16_of_le fits]
      exact Transfer.load_run (slotsTyped source type typed) stack
    · simp [AgreesAt, away, sourced, typed]

open VerificationType in
/-- **The arguments** push one type each, in order; the types are the parameters' own exactly
when every parameter is handed a value of its type. -/
theorem arguments_run {original variant : MethodInfo} {locals : Array VerificationType}
    (slotsTyped : ∀ position type, variant.descriptor.parameters[position]? = some type →
      locals[slotOf variant.descriptor.parameters position]? = some (ofFieldType type)) :
    ∀ (parameters : List FieldType) (arguments : List Instruction) (index : Nat)
      (stack : List VerificationType),
      arguments.length = parameters.length →
      (∀ offset parameter push, parameters[offset]? = some parameter → arguments[offset]? = some push →
        Argument original variant (index + offset) parameter push) →
      ∃ types : List VerificationType, types.length = parameters.length ∧
        (forM arguments Transfer.instruction).run ⟨locals, stack⟩ =
          .ok ((), ⟨locals, types.reverse ++ stack⟩) ∧
        (types = parameters.map ofFieldType ↔ ∀ offset parameter,
          parameters[offset]? = some parameter → AgreesAt original variant (index + offset) parameter)
  | [], [], _, stack, _, _ =>
    ⟨[], rfl, rfl, iff_of_true rfl fun offset parameter found => by cases found⟩
  | parameter :: rest, push :: more, index, stack, length, each => by
    obtain ⟨type, pushed, agrees⟩ := (each 0 parameter push rfl rfl).run slotsTyped stack
    obtain ⟨types, length', pushedRest, agreesRest⟩ := arguments_run slotsTyped rest more (index + 1)
      (type :: stack) (Nat.succ.inj length) fun offset parameter' push' found found' => by
        rw [show index + 1 + offset = index + (offset + 1) by omega]
        exact each (offset + 1) parameter' push' found found'
    refine ⟨type :: types, by simp [length'], ?_, ?_⟩
    · rw [List.forM_cons, StateT.run_bind, pushed, List.reverse_cons, List.append_assoc,
        List.singleton_append]
      exact pushedRest
    · -- the first parameter, then the others from `index + 1` on
      rw [List.map_cons, List.cons.injEq, agrees, agreesRest]
      constructor
      · rintro ⟨first, others⟩ offset parameter' found
        cases offset with
        | zero =>
          cases found
          exact first
        | succ offset =>
          rw [show index + (offset + 1) = index + 1 + offset by omega]
          exact others offset parameter' found
      · intro all
        refine ⟨all 0 parameter rfl, fun offset parameter' found => ?_⟩
        rw [show index + 1 + offset = index + (offset + 1) by omega]
        exact all (offset + 1) parameter' found
  | [], _ :: _, _, _, length, _ => by cases length
  | _ :: _, [], _, _, length, _ => by cases length

/-- The return ends the body: it has no targets and does not fall through. -/
theorem returning_targets (returnType : Option FieldType) : (returning returnType).targets = [] := by
  rcases returnType with _ | (base | _)
  · rfl
  · cases base <;> rfl
  · rfl

theorem returning_fallsThrough (returnType : Option FieldType) :
    (returning returnType).fallsThrough = false := by
  rcases returnType with _ | (base | _)
  · rfl
  · cases base <;> rfl
  · rfl

/-- **The forwarding body verifies exactly when the types agree.** Installed as the body of an
instance method with the variant's descriptor, where the variant returns the original's type, a
forwarding body passes verification exactly when every original parameter is handed a value of
its verification type. -/
theorem Forwards.verify_iff {owner : BinaryName} {original variant : MethodInfo} {body : Body}
    (forwards : Forwards owner original variant body) {className : BinaryName} {method : Method}
    (sameDescriptor : method.descriptor = variant.descriptor) (notStatic : method.isStatic = false)
    (sameReturn : variant.descriptor.returnType = original.descriptor.returnType) (journal : Journal) :
    ((({ method with body := some body } : Method).verify className).run.run journal).1 = .ok () ↔
      TypesAgree original variant := by
  obtain ⟨noHandlers, arguments, shape, length, each⟩ := forwards
  -- none of the instructions is `ret`: each pushes a value
  have noRet : ∀ instruction ∈ Instruction.load .reference 0 :: arguments ++
      [Instruction.invoke .virtual ⟨.object owner, original.name, original.descriptor, false⟩],
      ∀ slot, instruction ≠ .ret slot := by
    intro instruction mem slot
    simp only [List.cons_append, List.mem_cons, List.mem_append, List.not_mem_nil, or_false] at mem
    rcases mem with rfl | inArguments | rfl
    · intro isRet
      cases isRet
    · obtain ⟨index, found⟩ := List.getElem?_of_mem inArguments
      have inside : index < original.descriptor.parameters.length :=
        length ▸ (List.getElem?_eq_some_iff.mp found).1
      obtain ⟨type, ran, -⟩ := (each index _ instruction (List.getElem?_eq_getElem inside) found).run
        (Frame.entry_locals variant.descriptor.parameters 0).2 []
      exact Transfer.ne_ret_of_pushes ran slot
    · intro isRet
      cases isRet
  rw [Method.verify_straight_iff rfl shape noHandlers noRet (returning_targets _)
    (returning_fallsThrough _) journal]
  -- the method is an instance method with the variant's descriptor
  show (∃ after, (Transfer.straight method.descriptor.returnType _ _).run
    (Frame.entry method.isStatic method.descriptor.parameters
      (body.maxLocals ({ method with body := some body } : Method).parameterSlots)) = _) ↔ _
  generalize body.maxLocals ({ method with body := some body } : Method).parameterSlots = maxLocals
  rw [notStatic, sameDescriptor, sameReturn]
  obtain ⟨receiver, slotsTyped⟩ := Frame.entry_locals variant.descriptor.parameters maxLocals
  have empty : (Frame.entry false variant.descriptor.parameters maxLocals).stack = [] := rfl
  generalize Frame.entry false variant.descriptor.parameters maxLocals = entry at receiver slotsTyped empty ⊢
  obtain ⟨locals, stack⟩ := entry
  cases empty
  -- the receiver, then the arguments, each pushing its type
  have loaded : (Transfer.instruction (.load .reference 0)).run ⟨locals, []⟩ =
      .ok ((), ⟨locals, [VerificationType.reference]⟩) :=
    Transfer.load_run receiver []
  obtain ⟨types, typesLength, pushed, agree⟩ := arguments_run slotsTyped
    original.descriptor.parameters arguments 0 [VerificationType.reference] length
    fun offset parameter push found found' => by
      rw [Nat.zero_add]
      exact each offset parameter push found found'
  rw [List.cons_append, Transfer.straight_cons, Transfer.exists_run_bind_of_ok loaded,
    Transfer.straight_append, Transfer.exists_run_bind_of_ok pushed, Transfer.straight_cons,
    Transfer.straight_nil, typesAgree_iff]
  simp only [Nat.zero_add] at agree
  rw [← agree]
  -- then the call checks the types of its arguments
  have popping := Transfer.invoke_run_iff locals
    ⟨.object owner, original.name, original.descriptor, false⟩ types.reverse
    (by rw [List.length_reverse, typesLength])
  constructor
  · rintro ⟨after, ran⟩
    obtain ⟨⟨⟩, middle, invoked, -⟩ := Transfer.run_bind_ok ran
    exact List.reverse_inj.mp ((popping middle).mp invoked).1
  · intro same
    refine ⟨⟨locals, []⟩, ?_⟩
    rw [StateT.run_bind, (popping _).mpr ⟨by rw [same], rfl⟩]
    exact Transfer.returning_run locals original.descriptor.returnType

end Forwarder

theorem mapError_eq_ok {ε ε' α : Type} {result : Except ε α} {f : ε → ε'} {value : α}
    (mapped : result.mapError f = .ok value) : result = .ok value := by
  cases result with
  | error _ => cases mapped
  | ok _ => cases mapped; rfl

namespace Class

theorem replaceBody_append (info : MethodInfo) (body : Body) (method : Method) (after : List Method)
    (matching : (method.name == info.name && method.descriptor == info.descriptor) = true) :
    ∀ before : List Method,
      (∀ other ∈ before, (other.name == info.name && other.descriptor == info.descriptor) = false) →
      replaceBody info body (before ++ method :: after) =
        before ++ { method with body := some body } :: after
  | [], _ => by simp only [List.nil_append, replaceBody, matching, if_true]
  | other :: rest, differ => by
    have skipped := differ other List.mem_cons_self
    simp only [List.cons_append, replaceBody, skipped, Bool.false_eq_true, if_false]
    rw [replaceBody_append info body method after matching rest
      fun other' mem => differ other' (List.mem_cons_of_mem other mem)]

/-- The first method with a name and descriptor, with the methods before it. -/
theorem findInfo?_eq_some {cls : Class} {info : MethodInfo} {method : Method}
    (found : cls.findInfo? info = some method) :
    (method.name == info.name && method.descriptor == info.descriptor) = true ∧
      ∃ before after, cls.methods = before ++ method :: after ∧
        ∀ other ∈ before, (other.name == info.name && other.descriptor == info.descriptor) = false := by
  obtain ⟨matching, before, after, split, earlier⟩ := List.find?_eq_some_iff_append.mp found
  exact ⟨matching, before, after, split, fun other mem => by
    simpa only [Bool.not_eq_true'] using earlier other mem⟩

/-- What a successful `forwardVariant` has checked and done: the first method with the
variant's name and descriptor is an instance method with a body, the original is an instance
method, both return the same type, and the variant's body is replaced by a forwarding body. -/
theorem forwardVariant_eq_ok {cls forwarded : Class} {original variant : MethodInfo}
    (installed : cls.forwardVariant original variant = .ok forwarded) :
    ∃ before method after body,
      cls.methods = before ++ method :: after ∧
      (∀ other ∈ before, (other.name == variant.name && other.descriptor == variant.descriptor) = false) ∧
      (method.name == variant.name && method.descriptor == variant.descriptor) = true ∧
      method.isStatic = false ∧
      variant.descriptor.returnType = original.descriptor.returnType ∧
      Forwarder.body cls.name original variant = .ok body ∧
      forwarded = { cls with methods := before ++ { method with body := some body } :: after } := by
  unfold forwardVariant at installed
  dsimp only at installed
  -- each check in turn, the failing side of each ending in an error
  obtain ⟨originalMethod, originalFound⟩ : ∃ method, cls.findInfo? original = some method := by
    cases found : cls.findInfo? original with
    | none =>
      rw [found] at installed
      cases installed
    | some method => exact ⟨method, rfl⟩
  rw [originalFound] at installed
  dsimp only at installed
  split at installed
  · cases installed
  obtain ⟨variantMethod, variantFound⟩ : ∃ method, cls.findInfo? variant = some method := by
    cases found : cls.findInfo? variant with
    | none =>
      rw [found] at installed
      cases installed
    | some method => exact ⟨method, rfl⟩
  rw [variantFound] at installed
  dsimp only at installed
  split at installed
  · cases installed
  rename_i usable
  split at installed
  · cases installed
  rename_i sameReturn
  obtain ⟨body, built, installed⟩ := bind_eq_ok installed
  cases installed
  obtain ⟨matching, before, after, split, earlier⟩ := findInfo?_eq_some variantFound
  refine ⟨before, variantMethod, after, body, split, earlier, matching, ?_, ?_, mapError_eq_ok built, ?_⟩
  · simp only [Bool.or_eq_true, not_or, Bool.not_eq_true] at usable
    exact usable.1
  · simpa using sameReturn
  · rw [split, replaceBody_append variant body variantMethod after matching before earlier]

/-- After forwarding, looking the variant up finds the forwarder. -/
theorem findInfo?_replaced (cls : Class) {info : MethodInfo} {before after : List Method}
    {method : Method} (body : Body)
    (earlier : ∀ other ∈ before, (other.name == info.name && other.descriptor == info.descriptor) = false)
    (matching : (method.name == info.name && method.descriptor == info.descriptor) = true) :
    ({ cls with methods := before ++ { method with body := some body } :: after } : Class).findInfo? info =
      some { method with body := some body } := by
  unfold findInfo?
  rw [List.find?_append, List.find?_eq_none.mpr fun other mem => by simp [earlier other mem],
    Option.none_or, List.find?_cons_of_pos (by exact matching)]

/-- **Forwarding a variant.** A successful `forwardVariant` gives the first method with the
variant's name and descriptor, and no other method, a body forwarding to the original; that body
passes verification exactly when every original parameter is handed a value of its verification
type. -/
theorem forwardVariant_installs_forwarder {cls forwarded : Class} {original variant : MethodInfo}
    (installed : cls.forwardVariant original variant = .ok forwarded) :
    ∃ before method after body,
      cls.methods = before ++ method :: after ∧
      (∀ other ∈ before, ¬ (other.name = variant.name ∧ other.descriptor = variant.descriptor)) ∧
      method.name = variant.name ∧ method.descriptor = variant.descriptor ∧
      forwarded = { cls with methods := before ++ { method with body := some body } :: after } ∧
      Forwarder.Forwards cls.name original variant body ∧
      ∀ journal, ((({ method with body := some body } : Method).verify cls.name).run.run journal).1 =
          .ok () ↔ Forwarder.TypesAgree original variant := by
  obtain ⟨before, method, after, body, split, earlier, matching, notStatic, sameReturn, built, rfl⟩ :=
    forwardVariant_eq_ok installed
  simp only [Bool.and_eq_true, beq_iff_eq] at matching
  have forwards := Forwarder.body_forwards built
  refine ⟨before, method, after, body, split, ?_, matching.1, matching.2, rfl, forwards,
    fun journal => forwards.verify_iff matching.2 notStatic sameReturn journal⟩
  rintro other mem ⟨sameName, sameDescriptor⟩
  have differs := earlier other mem
  rw [sameName, sameDescriptor] at differs
  simp at differs

theorem exists_of_isOk {ε α : Type} {result : Except ε α} (ok : result.isOk = true) :
    ∃ value, result = .ok value := by
  cases result with
  | error _ => cases ok
  | ok value => exact ⟨value, rfl⟩

/-- A class with `f(II)V` and a variant `g(I)V` of it without the second, dummy, parameter. -/
def dummyVariantClass : Class where
  major := 49
  minor := 0
  flags := ClassFlags.ofBits 33
  name := ⟨"pk"⟩
  methods := [
    { flags := MethodFlags.ofBits 1, name := ⟨"f"⟩, descriptor := ⟨[.base .int, .base .int], none⟩,
      body := some { entries := #[.instruction .nop, .branch .returnVoid] } },
    { flags := MethodFlags.ofBits 1, name := ⟨"g"⟩, descriptor := ⟨[.base .int], none⟩,
      body := some { entries := #[.instruction .nop, .branch .returnVoid] } }]

/-- `f(II)V`, whose second parameter is a dummy `0`. -/
def pairOriginal : MethodInfo :=
  { name := ⟨"f"⟩, descriptor := ⟨[.base .int, .base .int], none⟩, dummyIndex := some 1,
    dummyValue := some 0 }

/-- `g(I)V`. -/
def intVariant : MethodInfo := { name := ⟨"g"⟩, descriptor := ⟨[.base .int], none⟩ }

theorem dummyVariant_forwarded :
    ∃ forwarded, dummyVariantClass.forwardVariant pairOriginal intVariant = .ok forwarded ∧
      ∃ before method after body,
        dummyVariantClass.methods = before ++ method :: after ∧
        (∀ other ∈ before, ¬ (other.name = intVariant.name ∧ other.descriptor = intVariant.descriptor)) ∧
        method.name = intVariant.name ∧ method.descriptor = intVariant.descriptor ∧
        forwarded = { dummyVariantClass with
          methods := before ++ { method with body := some body } :: after } ∧
        Forwarder.Forwards dummyVariantClass.name pairOriginal intVariant body ∧
        ∀ journal, ((({ method with body := some body } : Method).verify
          dummyVariantClass.name).run.run journal).1 = .ok () ↔
            Forwarder.TypesAgree pairOriginal intVariant := by
  obtain ⟨forwarded, installed⟩ := exists_of_isOk
    (by decide +kernel : (dummyVariantClass.forwardVariant pairOriginal intVariant).isOk = true)
  exact ⟨forwarded, installed, forwardVariant_installs_forwarder installed⟩

/-- A class with `f(I)V` and a variant `g(F)V` of it: the same return type, but a `float` where
the original takes an `int`. -/
def floatVariantClass : Class where
  major := 49
  minor := 0
  flags := ClassFlags.ofBits 33
  name := ⟨"pk"⟩
  methods := [
    { flags := MethodFlags.ofBits 1, name := ⟨"f"⟩, descriptor := ⟨[.base .int], none⟩,
      body := some { entries := #[.instruction .nop, .branch .returnVoid] } },
    { flags := MethodFlags.ofBits 1, name := ⟨"g"⟩, descriptor := ⟨[.base .float], none⟩,
      body := some { entries := #[.instruction .nop, .branch .returnVoid] } }]

/-- `f(I)V`. -/
def intOriginal : MethodInfo := { name := ⟨"f"⟩, descriptor := ⟨[.base .int], none⟩ }

/-- `g(F)V`. -/
def floatVariant : MethodInfo := { name := ⟨"g"⟩, descriptor := ⟨[.base .float], none⟩ }

/-- **A forwarder that fails verification is installed.** Forwarding `g(F)V` to `f(I)V` succeeds,
and the installed body loads a `float` where the call takes an `int`. -/
theorem forwardVariant_installs_unverifiable :
    ∃ forwarded method, floatVariantClass.forwardVariant intOriginal floatVariant = .ok forwarded ∧
      forwarded.findInfo? floatVariant = some method ∧
      ∀ journal, ((method.verify forwarded.name).run.run journal).1 ≠ .ok () := by
  obtain ⟨forwarded, installed⟩ := exists_of_isOk
    (by decide +kernel : (floatVariantClass.forwardVariant intOriginal floatVariant).isOk = true)
  obtain ⟨before, method, after, body, -, earlier, matching, notStatic, sameReturn, built, rfl⟩ :=
    forwardVariant_eq_ok installed
  refine ⟨_, { method with body := some body }, installed,
    findInfo?_replaced floatVariantClass body earlier matching, fun journal passed => ?_⟩
  have sameDescriptor : method.descriptor = floatVariant.descriptor := by
    simp only [Bool.and_eq_true, beq_iff_eq] at matching
    exact matching.2
  -- the `float` loaded for the `int` parameter
  have disagree : ¬ Forwarder.TypesAgree intOriginal floatVariant := by decide
  exact disagree (((Forwarder.body_forwards built).verify_iff sameDescriptor notStatic sameReturn
    journal).mp passed)

end Class

end ClassKit
