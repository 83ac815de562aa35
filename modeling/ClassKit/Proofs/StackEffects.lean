import ClassKit.Verifier.Frame

/-!
# Stack effects agree with the transfer rules

Two tables say what an instruction does to the operand stack. `Instruction.stackEffect` gives
the slots it pops and then pushes; the writer bounds the stack of a body with it. The
verifier's transfer rules type each entry. The two agree: whenever a transfer rule succeeds,
it has taken entries of exactly `pops` slots off the top of the stack and put entries of exactly
`pushes` slots in their place, and left the rest of the stack alone
(`Transfer.instruction_shifts`, `Transfer.branch_shifts`). A `long` or a `double` counts for two
slots, every other type, `top` included, for one.

The agreement is proved rule by rule, from a small calculus: `Transfer.Shifts pops pushes rule`
is closed under the ways the rules are built (popping first, pushing last, reading the frame,
a loop over the parameters of a method), so each rule's proof follows its shape.
-/

namespace ClassKit

namespace VerificationType

/-- Operand stack slots taken by entries: two for `long` and `double`, one for every other
type. -/
def slots : List VerificationType → Nat
  | [] => 0
  | type :: rest => type.width + slots rest

@[simp] theorem slots_nil : slots [] = 0 := rfl

@[simp] theorem slots_cons (type : VerificationType) (rest : List VerificationType) :
    slots (type :: rest) = type.width + slots rest := rfl

@[simp] theorem slots_append (first second : List VerificationType) :
    slots (first ++ second) = slots first + slots second := by
  induction first with
  | nil => simp
  | cons type rest ih => simp [ih, Nat.add_assoc]

theorem width_pos (type : VerificationType) : 0 < type.width := by
  cases type <;> decide

@[simp] theorem width_ofFieldType (type : FieldType) : (ofFieldType type).width = type.width := by
  rcases type with (_ | _ | _ | _ | _ | _ | _ | _) | _ <;> rfl

@[simp] theorem width_ofLiteral (literal : Literal) : (ofLiteral literal).width = literal.width := by
  cases literal <;> rfl

end VerificationType

namespace Transfer

open VerificationType

@[simp] theorem width_slotType (type : SlotType) : (slotType type).width = type.width := by
  cases type <;> rfl

@[simp] theorem width_numType (type : NumType) : (numType type).width = type.width := by
  cases type <;> rfl

@[simp] theorem width_elementType (element : ElementType) :
    (elementType element).width = element.width := by
  cases element <;> rfl

/-- A successful `first >>= rest` is a successful `first` followed by a successful `rest`. -/
theorem run_bind_ok {α β : Type} {first : Transfer α} {rest : α → Transfer β} {frame after : Frame}
    {value : β} (ran : (first >>= rest).run frame = .ok (value, after)) :
    ∃ middle between, first.run frame = .ok (middle, between) ∧
      (rest middle).run between = .ok (value, after) := by
  simp only [StateT.run_bind] at ran
  cases found : first.run frame with
  | error fault => rw [found] at ran; cases ran
  | ok pair => exact ⟨pair.1, pair.2, rfl, by rw [found] at ran; exact ran⟩

/-! ## The calculus -/

/-- Whenever `rule` succeeds, it has replaced entries taking `pops` slots on top of the stack by
entries taking `pushes` slots, and left the rest of the stack as it was. -/
def Shifts {α : Type} (pops pushes : Nat) (rule : Transfer α) : Prop :=
  ∀ frame value after, rule.run frame = .ok (value, after) →
    ∃ popped pushed rest, frame.stack = popped ++ rest ∧ after.stack = pushed ++ rest ∧
      slots popped = pops ∧ slots pushed = pushes

namespace Shifts

variable {α β : Type} {pops pushes : Nat}

theorem of_eq {rule : Transfer α} {pops' pushes' : Nat} (shifts : Shifts pops pushes rule)
    (samePops : pops = pops') (samePushes : pushes = pushes') : Shifts pops' pushes' rule := by
  subst samePops samePushes
  exact shifts

/-- A rule that never changes the stack. -/
theorem of_keeps {rule : Transfer α}
    (keeps : ∀ frame value after, rule.run frame = .ok (value, after) → after.stack = frame.stack) :
    Shifts 0 0 rule := by
  intro frame value after ran
  exact ⟨[], [], frame.stack, rfl, by rw [keeps frame value after ran]; rfl, rfl, rfl⟩

theorem pure (value : α) : Shifts 0 0 (Pure.pure value : Transfer α) :=
  of_keeps fun _ _ _ ran => by cases ran; rfl

theorem throw (fault : VerifierFault) : Shifts pops pushes (MonadExcept.throw fault : Transfer α) := by
  intro frame value after ran
  cases ran

theorem push (type : VerificationType) : Shifts 0 type.width (Transfer.push type) := by
  intro frame value after ran
  cases ran
  exact ⟨[], [type], frame.stack, rfl, rfl, rfl, by simp⟩

theorem pushAll (types : List VerificationType) : Shifts 0 (slots types) (Transfer.pushAll types) := by
  intro frame value after ran
  cases ran
  exact ⟨[], types, frame.stack, rfl, rfl, rfl, rfl⟩

theorem pop_run {frame after : Frame} {found : VerificationType}
    (ran : Transfer.pop.run frame = .ok (found, after)) : frame.stack = found :: after.stack := by
  unfold Transfer.pop at ran
  obtain ⟨current, between, got, ran⟩ := run_bind_ok ran
  cases got
  cases stack : frame.stack with
  | nil => simp [stack] at ran; cases ran
  | cons first rest =>
    simp only [stack] at ran
    obtain ⟨-, set, ran⟩ := run_bind_ok ran
    cases set
    cases ran
    rfl

theorem popExpecting (expected : VerificationType) :
    Shifts expected.width 0 (Transfer.popExpecting expected) := by
  intro frame value after ran
  unfold Transfer.popExpecting at ran
  obtain ⟨found, between, popped, ran⟩ := run_bind_ok ran
  have stack := pop_run popped
  by_cases same : found = expected
  · -- the check passes only on the expected type, so the entry popped is `expected`
    subst same
    simp only [bne_self_eq_false, Bool.false_eq_true, if_false] at ran
    cases ran
    exact ⟨[found], [], after.stack, stack, rfl, by simp, rfl⟩
  · simp only [bne_iff_ne, ne_eq, same, not_false_eq_true, if_true] at ran
    cases ran

/-- `popSlots` for one or two slots pops entries taking exactly that many. -/
theorem popSlots_run {slotCount : Nat} (small : slotCount ≤ 2) {frame after : Frame}
    {values : List VerificationType} (ran : (popSlots slotCount).run frame = .ok (values, after)) :
    frame.stack = values ++ after.stack ∧ slots values = slotCount := by
  unfold popSlots at ran
  obtain ⟨first, between, poppedFirst, ran⟩ := run_bind_ok ran
  have firstStack := pop_run poppedFirst
  have firstPos := width_pos first
  by_cases tooWide : first.width > slotCount
  · simp only [tooWide, if_true] at ran
    obtain ⟨_, _, thrown, _⟩ := run_bind_ok ran
    cases thrown
  simp only [tooWide, if_false] at ran
  by_cases exact : first.width = slotCount
  · -- one entry fills the slots
    simp only [exact, beq_self_eq_true, if_true] at ran
    cases ran
    exact ⟨firstStack, by simp [exact]⟩
  · -- otherwise a one-slot entry is followed by another one-slot entry
    simp only [beq_iff_eq, exact, if_false] at ran
    obtain ⟨second, between'', poppedSecond, ran⟩ := run_bind_ok ran
    have secondStack := pop_run poppedSecond
    have secondPos := width_pos second
    by_cases overflow : first.width + second.width > slotCount
    · simp only [overflow, if_true] at ran
      obtain ⟨_, _, thrown, _⟩ := run_bind_ok ran
      cases thrown
    · simp only [overflow, if_false] at ran
      cases ran
      refine ⟨by rw [firstStack, secondStack]; rfl, ?_⟩
      simp only [slots_cons, slots_nil]
      omega

/-- A rule that pushes nothing, followed by a rule that shifts: the pops add up. -/
theorem pop_bind {first : Transfer α} {rest : α → Transfer β} {pops' : Nat}
    (firstShifts : Shifts pops 0 first) (restShifts : ∀ value, Shifts pops' pushes (rest value)) :
    Shifts (pops + pops') pushes (first >>= rest) := by
  intro frame value after ran
  obtain ⟨middle, between, firstRan, restRan⟩ := run_bind_ok ran
  obtain ⟨popped, pushedFirst, rest, stack, betweenStack, poppedSlots, pushedFirstSlots⟩ :=
    firstShifts frame middle between firstRan
  obtain ⟨popped', pushed, rest', betweenStack', afterStack, poppedSlots', pushedSlots⟩ :=
    restShifts middle between value after restRan
  -- nothing was pushed in between, so the second rule pops from what the first left
  have empty : pushedFirst = [] := by
    cases pushedFirst with
    | nil => rfl
    | cons type _ => have := width_pos type; simp at pushedFirstSlots; omega
  subst empty
  refine ⟨popped ++ popped', pushed, rest', ?_, afterStack, by simp [poppedSlots, poppedSlots'],
    pushedSlots⟩
  rw [stack, ← List.nil_append rest, ← betweenStack, betweenStack', List.append_assoc]

/-- `popSlots` followed by a rule that may use the entries popped, which take the slots asked
for. -/
theorem popSlots_bind {slotCount pops' : Nat} (small : slotCount ≤ 2)
    {rest : List VerificationType → Transfer β}
    (restShifts : ∀ values, slots values = slotCount → Shifts pops' pushes (rest values)) :
    Shifts (slotCount + pops') pushes (popSlots slotCount >>= rest) := by
  intro frame value after ran
  obtain ⟨values, between, popped, restRan⟩ := run_bind_ok ran
  obtain ⟨stack, valuesSlots⟩ := popSlots_run small popped
  obtain ⟨popped', pushed, rest', betweenStack, afterStack, poppedSlots, pushedSlots⟩ :=
    restShifts values valuesSlots between value after restRan
  exact ⟨values ++ popped', pushed, rest', by rw [stack, betweenStack, List.append_assoc],
    afterStack, by simp [valuesSlots, poppedSlots], pushedSlots⟩

theorem popSlots {slotCount : Nat} (small : slotCount ≤ 2) :
    Shifts slotCount 0 (Transfer.popSlots slotCount) := by
  intro frame value after ran
  obtain ⟨stack, valuesSlots⟩ := popSlots_run small ran
  exact ⟨value, [], after.stack, stack, rfl, valuesSlots, rfl⟩

theorem map {rule : Transfer α} (f : α → β) (shifts : Shifts pops pushes rule) :
    Shifts pops pushes (f <$> rule) := by
  intro frame value after ran
  rw [← bind_pure_comp] at ran
  obtain ⟨middle, between, firstRan, restRan⟩ := run_bind_ok ran
  cases restRan
  exact shifts frame middle after firstRan

theorem discard {rule : Transfer α} (shifts : Shifts pops pushes rule) :
    Shifts pops pushes (Functor.discard rule) :=
  map (fun _ => PUnit.unit) shifts

/-- Reading the frame, then going on with a rule that shifts whatever the frame read. -/
theorem get_bind {rest : Frame → Transfer α} (restShifts : ∀ frame, Shifts pops pushes (rest frame)) :
    Shifts pops pushes (MonadState.get >>= rest) := by
  intro frame value after ran
  obtain ⟨current, between, got, restRan⟩ := run_bind_ok ran
  cases got
  exact restShifts frame frame value after restRan

/-- A loop popping one value per item pops the slots of all of them. -/
theorem forIn_pops {γ : Type} (width : γ → Nat) (body : γ → Transfer Unit)
    (each : ∀ item, Shifts (width item) 0 (body item)) (items : List γ) :
    Shifts ((items.map width).foldr (· + ·) 0) 0
      (forIn items PUnit.unit fun item _ => do
        body item
        Pure.pure (ForInStep.yield PUnit.unit)) := by
  induction items with
  | nil => exact pure PUnit.unit
  | cons item rest ih =>
    simp only [List.forIn_cons, bind_assoc, pure_bind]
    exact (each item).pop_bind fun _ => ih

end Shifts

/-! ## The rules of the verifier -/

theorem popIntegers_shifts : ∀ count, Shifts count 0 (popIntegers count)
  | 0 => Shifts.pure ()
  | count + 1 =>
    ((Shifts.popExpecting integer).pop_bind fun _ => popIntegers_shifts count).of_eq
      (Nat.add_comm 1 count) rfl

theorem localType_shifts (slot : Nat) : Shifts 0 0 (localType slot) := by
  unfold localType
  refine Shifts.get_bind fun frame => ?_
  split
  · exact Shifts.pure _
  · exact Shifts.throw _

theorem expectLocal_shifts (slot : Nat) (expected : VerificationType) :
    Shifts 0 0 (expectLocal slot expected) := by
  unfold expectLocal
  refine (localType_shifts slot).pop_bind fun found => (?_ : Shifts 0 0 _)
  split
  · exact Shifts.throw _
  · exact Shifts.pure _

theorem load_shifts (slot : Nat) (type : VerificationType) : Shifts 0 type.width (load slot type) :=
  (expectLocal_shifts slot type).pop_bind fun _ => Shifts.push type

/-- A store pops its value; what it does to the locals leaves the stack alone. -/
theorem store_shifts (slot : Nat) (type : VerificationType) :
    Shifts type.width 0 (store slot type) := by
  unfold store
  refine ((Shifts.popExpecting type).pop_bind fun _ => Shifts.of_keeps ?_).of_eq (Nat.add_zero _) rfl
  intro frame value after ran
  obtain ⟨current, between, got, ran⟩ := run_bind_ok ran
  cases got
  by_cases outside : slot + type.width > frame.locals.size
  · simp only [outside, ↓reduceIte] at ran
    obtain ⟨_, _, thrown, _⟩ := run_bind_ok ran
    cases thrown
  · simp only [outside, ↓reduceIte] at ran
    cases ran
    rfl

theorem unary_shifts (argument result : VerificationType) :
    Shifts argument.width result.width (unary argument result) :=
  ((Shifts.popExpecting argument).pop_bind fun _ => Shifts.push result).of_eq (Nat.add_zero _) rfl

theorem binary_shifts (left right result : VerificationType) :
    Shifts (right.width + left.width) result.width (binary left right result) :=
  (Shifts.popExpecting right).pop_bind fun _ =>
    ((Shifts.popExpecting left).pop_bind fun _ => Shifts.push result).of_eq (Nat.add_zero _) rfl

theorem arrayLoad_shifts (element : VerificationType) :
    Shifts 2 element.width (arrayLoad element) :=
  (Shifts.popExpecting integer).pop_bind fun _ =>
    (Shifts.popExpecting reference).pop_bind fun _ => Shifts.push element

theorem arrayStore_shifts (element : VerificationType) :
    Shifts (element.width + 2) 0 (arrayStore element) :=
  (Shifts.popExpecting element).pop_bind fun _ =>
    (Shifts.popExpecting integer).pop_bind fun _ => Shifts.popExpecting reference

/-- Popping two groups of entries and pushing them back rearranged, as the `dup_x` family and
`swap` do. -/
theorem rearrange_shifts {upperCount underCount pushes : Nat} (upperSmall : upperCount ≤ 2)
    (underSmall : underCount ≤ 2) {arrange : List VerificationType → List VerificationType →
      List VerificationType}
    (arranged : ∀ upper under, slots upper = upperCount → slots under = underCount →
      slots (arrange upper under) = pushes) :
    Shifts (upperCount + underCount) pushes (popSlots upperCount >>= fun upper =>
      popSlots underCount >>= fun under => pushAll (arrange upper under)) :=
  Shifts.popSlots_bind upperSmall fun upper upperSlots =>
    ((Shifts.popSlots_bind underSmall fun under underSlots =>
      (Shifts.pushAll _).of_eq rfl (arranged upper under upperSlots underSlots)).of_eq
        (Nat.add_zero _) rfl)

/-- The untyped stack instructions move whole entries, of the slots their effect gives. -/
theorem stackOp_shifts (op : StackOp) : Shifts op.effect.1 op.effect.2 (stackOp op) := by
  cases op with
  | pop => exact Shifts.discard (Shifts.popSlots (by decide))
  | pop2 => exact Shifts.discard (Shifts.popSlots (by decide))
  | dup | dup2 =>
    refine Shifts.popSlots_bind (by decide) fun upper upperSlots => (?_ : Shifts 0 _ _)
    exact (Shifts.pushAll _).of_eq rfl (by simp [StackOp.effect, upperSlots])
  | dupX1 =>
    exact rearrange_shifts (by decide : 1 ≤ 2) (by decide : 1 ≤ 2) fun upper under upperSlots
      underSlots => by simp [StackOp.effect, upperSlots, underSlots]
  | dupX2 =>
    exact rearrange_shifts (by decide : 1 ≤ 2) (by decide : 2 ≤ 2) fun upper under upperSlots
      underSlots => by simp [StackOp.effect, upperSlots, underSlots]
  | dup2X1 =>
    exact rearrange_shifts (by decide : 2 ≤ 2) (by decide : 1 ≤ 2) fun upper under upperSlots
      underSlots => by simp [StackOp.effect, upperSlots, underSlots]
  | dup2X2 =>
    exact rearrange_shifts (by decide : 2 ≤ 2) (by decide : 2 ≤ 2) fun upper under upperSlots
      underSlots => by simp [StackOp.effect, upperSlots, underSlots]
  | swap =>
    exact rearrange_shifts (by decide : 1 ≤ 2) (by decide : 1 ≤ 2) fun upper under upperSlots
      underSlots => by simp [StackOp.effect, upperSlots, underSlots]

/-- An invocation pops its arguments, last first, then the receiver of an instance method, and
pushes the result. -/
theorem invoke_shifts (kind : InvokeKind) (ref : MethodRef) :
    Shifts (ref.descriptor.parameterSlots (kind != .static))
      ((ref.descriptor.returnType.map FieldType.width).getD 0) (instruction (.invoke kind ref)) := by
  obtain ⟨owner, name, ⟨parameters, returnType⟩, isInterface⟩ := ref
  have argumentsPopped := Shifts.forIn_pops (fun parameter => (ofFieldType parameter).width)
    (fun parameter => Transfer.popExpecting (ofFieldType parameter))
    (fun parameter => Shifts.popExpecting _) parameters.reverse
  -- the arguments take their slots whichever end they are popped from
  have argumentSlots : (parameters.reverse.map fun parameter => (ofFieldType parameter).width).foldr
      (· + ·) 0 = (parameters.map FieldType.width).foldr (· + ·) 0 := by
    simp only [width_ofFieldType, List.map_reverse]
    exact List.sum_reverse _
  dsimp only [instruction]
  refine (Shifts.pop_bind argumentsPopped fun _ =>
    (?_ : Shifts (if kind != .static then 1 else 0) _ _)).of_eq ?_ rfl
  · -- then the receiver of an instance method, and last the result
    by_cases hasThis : (kind != .static) = true <;> cases returnType <;>
      simp only [hasThis, Bool.false_eq_true, ↓reduceIte, Option.map_none, Option.map_some,
        Option.getD_none, Option.getD_some]
    · exact Shifts.pop_bind (Shifts.popExpecting reference) fun _ => Shifts.pure ()
    · exact Shifts.pop_bind (Shifts.popExpecting reference) fun _ =>
        (Shifts.push _).of_eq rfl (width_ofFieldType _)
    · exact Shifts.pure ()
    · exact (Shifts.push _).of_eq rfl (width_ofFieldType _)
  · rw [argumentSlots, MethodDescriptor.parameterSlots, Nat.add_comm]

/-- **Every transfer rule pops and pushes the slots of the instruction's stack effect.** -/
theorem instruction_shifts (instruction : Instruction) :
    Shifts instruction.stackEffect.1 instruction.stackEffect.2 (Transfer.instruction instruction) := by
  cases instruction with
  | nop => exact Shifts.pure ()
  | aconstNull | iconst _ | bipush _ | sipush _ | lconst _ | fconst _ | dconst _ =>
    exact Shifts.push _
  | ldc literal => exact (Shifts.push _).of_eq rfl (width_ofLiteral literal)
  | load type slot => exact (load_shifts _ _).of_eq rfl (width_slotType type)
  | store type slot =>
    cases type with
    | reference =>
      -- `astore` stores a return address or a reference, both of one slot
      refine Shifts.get_bind fun frame => ?_
      dsimp only
      split <;> exact store_shifts _ _
    | int | long | float | double => exact store_shifts _ _
  | iinc _ _ | ret _ => exact expectLocal_shifts _ _
  | arrayLoad element => exact (arrayLoad_shifts _).of_eq rfl (width_elementType element)
  | arrayStore element =>
    exact (arrayStore_shifts _).of_eq (by simp [Instruction.stackEffect, Nat.add_comm]) rfl
  | stack op => exact stackOp_shifts op
  | arith _ type =>
    exact (binary_shifts _ _ _).of_eq (by simp [Instruction.stackEffect]; omega)
      (width_numType type)
  | neg type =>
    exact (unary_shifts _ _).of_eq (width_numType type) (width_numType type)
  | shift _ isLong | bitwise _ isLong => cases isLong <;> exact binary_shifts _ _ _
  | convert conversion => cases conversion <;> exact unary_shifts _ _
  | lcmp | fcmp _ | dcmp _ => exact binary_shifts _ _ _
  | field access ref =>
    cases access with
    | getStatic => exact (Shifts.push _).of_eq rfl (width_ofFieldType _)
    | putStatic => exact (Shifts.popExpecting _).of_eq (width_ofFieldType _) rfl
    | getField =>
      exact Shifts.pop_bind (Shifts.popExpecting reference) fun _ =>
        (Shifts.push _).of_eq rfl (width_ofFieldType _)
    | putField =>
      exact (Shifts.pop_bind (Shifts.popExpecting _) fun _ => Shifts.popExpecting reference).of_eq
        (by simp only [Instruction.stackEffect, width_ofFieldType]; exact Nat.add_comm _ _) rfl
  | invoke kind ref => exact invoke_shifts kind ref
  | typeOp op type =>
    cases op with
    | new => exact Shifts.push reference
    | aNewArray | checkCast | instanceOf => exact unary_shifts _ _
  | newArray _ | arrayLength => exact unary_shifts _ _
  | monitorEnter | monitorExit => exact Shifts.popExpecting reference
  | multiANewArray type dimensions =>
    exact Shifts.pop_bind (popIntegers_shifts _) fun _ => Shifts.push reference

theorem returning_shifts (returnType : Option FieldType) (type : VerificationType) :
    Shifts type.width 0 (returning returnType type) := by
  unfold returning
  split
  · split
    · exact Shifts.popExpecting type
    · exact Shifts.throw _
  · exact Shifts.throw _

/-- **Every branch's transfer rule pops the slots the branch is said to pop**, and pushes
nothing: the return address of a `jsr` is pushed only on the way into the subroutine. -/
theorem branch_shifts (returnType : Option FieldType) (branch : Branch Label) :
    Shifts branch.stackPops 0 (Transfer.branch returnType branch) := by
  cases branch with
  | ifZero | tableSwitch | lookupSwitch => exact Shifts.popExpecting integer
  | ifICmp => exact Shifts.pop_bind (Shifts.popExpecting integer) fun _ => Shifts.popExpecting integer
  | ifACmp =>
    exact Shifts.pop_bind (Shifts.popExpecting reference) fun _ => Shifts.popExpecting reference
  | ifNull | athrow => exact Shifts.popExpecting reference
  | goto | jsr => exact Shifts.pure ()
  | returnValue type => exact (returning_shifts _ _).of_eq (width_slotType type) rfl
  | returnVoid =>
    dsimp only [Transfer.branch]
    split
    · exact Shifts.throw _
    · exact Shifts.pure ()

/-- What a shift does to the number of slots on the stack. -/
theorem Shifts.slots_after {α : Type} {pops pushes : Nat} {rule : Transfer α}
    (shifts : Shifts pops pushes rule) {frame after : Frame} {value : α}
    (ran : rule.run frame = .ok (value, after)) :
    pops ≤ slots frame.stack ∧ slots after.stack = slots frame.stack - pops + pushes := by
  obtain ⟨popped, pushed, rest, stack, afterStack, poppedSlots, pushedSlots⟩ :=
    shifts frame value after ran
  rw [stack, afterStack, slots_append, slots_append, poppedSlots, pushedSlots]
  omega

end Transfer

/-- **The stack effects agree with the verifier.** Whenever the verifier's rule for an
instruction succeeds, the stack held at least the slots the instruction's stack effect pops,
and afterwards holds those slots less the popped ones plus the pushed ones; whenever a branch's
rule succeeds, it has removed exactly the slots the branch pops. -/
theorem transfer_agrees_with_stack_effects :
    (∀ (instruction : Instruction) (frame after : Frame),
      (Transfer.instruction instruction).run frame = .ok ((), after) →
        instruction.stackEffect.1 ≤ VerificationType.slots frame.stack ∧
          VerificationType.slots after.stack = VerificationType.slots frame.stack -
            instruction.stackEffect.1 + instruction.stackEffect.2) ∧
    ∀ (returnType : Option FieldType) (branch : Branch Label) (frame after : Frame),
      (Transfer.branch returnType branch).run frame = .ok ((), after) →
        branch.stackPops ≤ VerificationType.slots frame.stack ∧
          VerificationType.slots after.stack = VerificationType.slots frame.stack - branch.stackPops :=
  ⟨fun instruction _ _ ran => (Transfer.instruction_shifts instruction).slots_after ran,
    fun returnType branch _ _ ran => (Transfer.branch_shifts returnType branch).slots_after ran⟩

end ClassKit
