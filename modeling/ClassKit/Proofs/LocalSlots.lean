import ClassKit.Proofs.VerifierSoundness
import ClassKit.Proofs.StackEffects

/-!
# The verifier never reports an invalid local

A body needs `Body.maxLocals` local slots: the parameters' slots, and every slot an instruction of
the body touches, reachable or not. The entry frame of a method has exactly that many locals,
and every frame the worklist stores or derives keeps the count: transfer rules change slots but
never their number (`store` checks its slot before it writes), a handler's frame copies the
locals, and a merge keeps the locals of the frame merged into. An instruction that reads or
writes a local therefore always finds it, and verification never fails with `invalidLocal`
(`Method.verify_never_reports_invalid_local`).

The argument runs through `ExceptHolds`, which says what a result that may be an error is: a
value with a property, or an error of an allowed kind. It is closed under `bind`, so each rule
and each stage of the worklist gets one lemma, assembled along the shape of its definition.
-/

namespace ClassKit

/-! ## Outcomes that may be errors -/

/-- `result` is a value satisfying `post`, or an error satisfying `allowed`. -/
def ExceptHolds {ε α : Type} (allowed : ε → Prop) (post : α → Prop) : Except ε α → Prop
  | .ok value => post value
  | .error err => allowed err

namespace ExceptHolds

variable {ε ε' α β : Type} {allowed : ε → Prop} {post : α → Prop}

theorem bind {next : β → Prop} {first : Except ε α} {rest : α → Except ε β}
    (firstHolds : ExceptHolds allowed post first)
    (restHolds : ∀ value, post value → ExceptHolds allowed next (rest value)) :
    ExceptHolds allowed next (first >>= rest) := by
  cases first with
  | error err => exact firstHolds
  | ok value => exact restHolds value firstHolds

theorem map {next : β → Prop} {f : α → β} {result : Except ε α}
    (holds : ExceptHolds allowed post result) (mapped : ∀ value, post value → next (f value)) :
    ExceptHolds allowed next (result.map f) := by
  cases result with
  | error err => exact holds
  | ok value => exact mapped value holds

theorem mapError {allowed' : ε' → Prop} {f : ε → ε'} {result : Except ε α}
    (holds : ExceptHolds allowed post result) (renamed : ∀ err, allowed err → allowed' (f err)) :
    ExceptHolds allowed' post (result.mapError f) := by
  cases result with
  | error err => exact renamed err holds
  | ok value => exact holds

/-- What holds of a result that is known to be a value. -/
theorem of_ok {result : Except ε α} {value : α} (holds : ExceptHolds allowed post result)
    (found : result = .ok value) : post value := by
  rw [found] at holds
  exact holds

/-- What holds of a result that is known to be an error. -/
theorem of_error {result : Except ε α} {err : ε} (holds : ExceptHolds allowed post result)
    (found : result = .error err) : allowed err := by
  rw [found] at holds
  exact holds

theorem mono {allowed' : ε → Prop} {post' : α → Prop} {result : Except ε α}
    (holds : ExceptHolds allowed post result) (widerErrors : ∀ err, allowed err → allowed' err)
    (widerValues : ∀ value, post value → post' value) : ExceptHolds allowed' post' result := by
  cases result with
  | error err => exact widerErrors err holds
  | ok value => exact widerValues value holds

/-- A fold whose every step fails only with allowed errors fails only with allowed errors. -/
theorem foldlM {γ : Type} {f : α → γ → Except ε α}
    (step : ∀ acc item, ExceptHolds allowed (fun _ => True) (f acc item)) :
    ∀ (items : List γ) (init : α), ExceptHolds allowed (fun _ => True) (items.foldlM f init)
  | [], _ => trivial
  | item :: rest, init => by
    rw [List.foldlM_cons]
    exact (step init item).bind fun acc _ => foldlM step rest acc

/-- A map whose every call fails only with allowed errors fails only with allowed errors. -/
theorem mapM {γ : Type} {f : γ → Except ε α}
    (each : ∀ item, ExceptHolds allowed (fun _ => True) (f item)) :
    ∀ items : List γ, ExceptHolds allowed (fun _ => True) (items.mapM f)
  | [] => trivial
  | item :: rest => by
    rw [List.mapM_cons]
    exact (each item).bind fun _ _ => (mapM each rest).bind fun _ _ => trivial

end ExceptHolds

/-! ## Slots a body touches -/

/-- Every local slot an instruction of `entries` touches, with the slots after it that a wide
value takes, lies below `size`. -/
def LocalsFit (entries : Array Entry) (size : Nat) : Prop :=
  ∀ (index : Nat) (instruction : Instruction), entries[index]? = some (.instruction instruction) →
    ∀ slot width, instruction.localSlot? = some (slot, width) → slot.toNat + width ≤ size

namespace Body

/-- The slots of a body cover the parameters' slots and every local slot an instruction of the
body touches. -/
theorem maxLocals_covers (body : Body) (parameterSlots : Nat) :
    parameterSlots ≤ body.maxLocals parameterSlots ∧
      LocalsFit body.entries (body.maxLocals parameterSlots) := by
  suffices covers : parameterSlots ≤ body.maxLocals parameterSlots ∧
      ∀ instruction, Entry.instruction instruction ∈ body.entries.toList → ∀ slot width,
        instruction.localSlot? = some (slot, width) → slot.toNat + width ≤ body.maxLocals parameterSlots by
    refine ⟨covers.1, fun index instruction found slot width touched => covers.2 instruction ?_ slot width touched⟩
    exact Array.mem_toList_iff.mpr (Array.mem_of_getElem? found)
  unfold maxLocals
  rw [← Array.foldl_toList]
  generalize body.entries.toList = entries
  -- the fold only goes up, and each instruction lifts it to the slots it touches
  induction entries generalizing parameterSlots with
  | nil => exact ⟨Nat.le_refl _, fun _ member => absurd member List.not_mem_nil⟩
  | cons entry rest ih =>
    rw [List.foldl_cons]
    refine ⟨Nat.le_trans ?_ (ih _).1, fun instruction member slot width touched => ?_⟩
    · rcases entry with _ | instruction | _
      · exact Nat.le_refl _
      · dsimp only
        split
        · exact Nat.le_max_left _ _
        · exact Nat.le_refl _
      · exact Nat.le_refl _
    · rcases List.mem_cons.mp member with rfl | later
      · refine Nat.le_trans ?_ (ih _).1
        dsimp only
        rw [touched]
        exact Nat.le_max_right _ _
      · exact (ih _).2 instruction later slot width touched

end Body

/-! ## Transfer rules keep the locals -/

namespace Transfer

/-- A fault that is not about a local slot. -/
def NotLocal (fault : VerifierFault) : Prop := ∀ slot, fault ≠ .invalidLocal slot

/-- Run on a frame with `size` locals, `rule` ends with `size` locals, or fails with a fault that
is not about a local slot. -/
def KeepsLocals {α : Type} (size : Nat) (rule : Transfer α) : Prop :=
  ∀ frame : Frame, frame.locals.size = size →
    ExceptHolds NotLocal (fun result : α × Frame => result.2.locals.size = size) (rule.run frame)

namespace KeepsLocals

variable {α β : Type} {size : Nat}

theorem pure (value : α) : KeepsLocals size (Pure.pure value : Transfer α) :=
  fun _ sized => sized

theorem throw {fault : VerifierFault} (notLocal : NotLocal fault) :
    KeepsLocals size (MonadExcept.throw fault : Transfer α) :=
  fun _ _ => notLocal

/-- A rule that fails: whatever was to follow never runs. -/
theorem throw_bind {fault : VerifierFault} {rest : α → Transfer β} (notLocal : NotLocal fault) :
    KeepsLocals size (MonadExcept.throw fault >>= rest) :=
  fun _ _ => notLocal

theorem bind {first : Transfer α} {rest : α → Transfer β} (firstKeeps : KeepsLocals size first)
    (restKeeps : ∀ value, KeepsLocals size (rest value)) : KeepsLocals size (first >>= rest) := by
  intro frame sized
  rw [StateT.run_bind]
  exact (firstKeeps frame sized).bind fun result sizedAfter => restKeeps result.1 result.2 sizedAfter

/-- Reading the frame, then going on with a rule that keeps the locals of a frame of that size. -/
theorem get_bind {rest : Frame → Transfer α}
    (restKeeps : ∀ frame : Frame, frame.locals.size = size → KeepsLocals size (rest frame)) :
    KeepsLocals size (MonadState.get >>= rest) :=
  fun frame sized => restKeeps frame sized frame sized

theorem map {rule : Transfer α} (f : α → β) (keeps : KeepsLocals size rule) :
    KeepsLocals size (f <$> rule) := by
  rw [← bind_pure_comp]
  exact keeps.bind fun value => pure (f value)

theorem push (type : VerificationType) : KeepsLocals size (Transfer.push type) :=
  fun _ sized => sized

theorem pushAll (types : List VerificationType) : KeepsLocals size (Transfer.pushAll types) :=
  fun _ sized => sized

theorem pop : KeepsLocals size Transfer.pop := by
  unfold Transfer.pop
  refine get_bind fun frame sized => ?_
  split
  · exact throw fun _ => VerifierFault.noConfusion
  · exact bind (fun _ _ => sized) fun _ => pure _

theorem popExpecting (expected : VerificationType) : KeepsLocals size (Transfer.popExpecting expected) := by
  unfold Transfer.popExpecting
  refine pop.bind fun found => ?_
  split
  · exact throw fun _ => VerifierFault.noConfusion
  · exact pure _

theorem popSlots (slotCount : Nat) : KeepsLocals size (Transfer.popSlots slotCount) := by
  unfold Transfer.popSlots
  refine pop.bind fun first => ?_
  dsimp only
  split
  · exact throw_bind fun _ => VerifierFault.noConfusion
  · split
    · exact pure _
    · refine pop.bind fun second => ?_
      split
      · exact throw_bind fun _ => VerifierFault.noConfusion
      · exact pure _

/-- A loop whose body keeps the locals keeps them. -/
theorem forIn {γ : Type} (body : γ → Transfer Unit) (each : ∀ item, KeepsLocals size (body item)) :
    ∀ items : List γ, KeepsLocals size (forIn items PUnit.unit fun item _ => do
      body item
      Pure.pure (ForInStep.yield PUnit.unit))
  | [] => pure _
  | item :: rest => by
    simp only [List.forIn_cons, bind_assoc, pure_bind]
    exact (each item).bind fun _ => forIn body each rest

/-- The frame a rule ends with. -/
theorem frame_after {rule : Transfer α} (keeps : KeepsLocals size rule) {frame : Frame}
    (sized : frame.locals.size = size) :
    ExceptHolds NotLocal (fun after : Frame => after.locals.size = size) ((rule.run frame).map (·.2)) :=
  (keeps frame sized).map fun _ sizedAfter => sizedAfter

theorem set {frame : Frame} (sized : frame.locals.size = size) :
    KeepsLocals size (MonadState.set frame : Transfer PUnit) :=
  fun _ _ => sized

/-- Reading a slot below the size finds it. -/
theorem localType {slot : Nat} (inside : slot < size) : KeepsLocals size (Transfer.localType slot) := by
  unfold Transfer.localType
  refine get_bind fun frame sized => ?_
  rw [Array.getElem?_eq_getElem (by omega : slot < frame.locals.size)]
  exact pure _

theorem expectLocal {slot : Nat} (inside : slot < size) (expected : VerificationType) :
    KeepsLocals size (Transfer.expectLocal slot expected) := by
  unfold Transfer.expectLocal
  refine (localType inside).bind fun found => ?_
  split
  · exact throw fun _ => VerifierFault.noConfusion
  · exact pure _

/-- A store whose slots lie below the size passes its check, and writing slots keeps their
number. -/
theorem store {slot : Nat} {type : VerificationType} (fits : slot + type.width ≤ size) :
    KeepsLocals size (Transfer.store slot type) := by
  unfold Transfer.store
  refine (popExpecting type).bind fun _ => get_bind fun frame sized => ?_
  dsimp only
  rw [if_neg (by omega)]
  refine set ?_
  cases slot with
  | zero => split_ifs <;> simp [sized]
  | succ previous => split_ifs <;> simp [sized, apply_ite Array.size]

theorem load {slot : Nat} (inside : slot < size) (type : VerificationType) :
    KeepsLocals size (Transfer.load slot type) :=
  (expectLocal inside type).bind fun _ => push type

theorem discard {rule : Transfer α} (keeps : KeepsLocals size rule) :
    KeepsLocals size (Functor.discard rule) :=
  map (fun _ => PUnit.unit) keeps

theorem unary (argument result : VerificationType) :
    KeepsLocals size (Transfer.unary argument result) :=
  (popExpecting argument).bind fun _ => push result

theorem binary (left right result : VerificationType) :
    KeepsLocals size (Transfer.binary left right result) :=
  (popExpecting right).bind fun _ => (popExpecting left).bind fun _ => push result

theorem arrayLoad (element : VerificationType) : KeepsLocals size (Transfer.arrayLoad element) :=
  (popExpecting _).bind fun _ => (popExpecting _).bind fun _ => push element

theorem arrayStore (element : VerificationType) : KeepsLocals size (Transfer.arrayStore element) :=
  (popExpecting element).bind fun _ => (popExpecting _).bind fun _ => popExpecting _

theorem stackOp (op : StackOp) : KeepsLocals size (Transfer.stackOp op) := by
  cases op with
  | pop | pop2 => exact discard (popSlots _)
  | dup | dup2 => exact (popSlots _).bind fun _ => pushAll _
  | dupX1 | dupX2 | dup2X1 | dup2X2 | swap =>
    exact (popSlots _).bind fun _ => (popSlots _).bind fun _ => pushAll _

theorem popIntegers : ∀ count, KeepsLocals size (Transfer.popIntegers count)
  | 0 => pure ()
  | count + 1 => (popExpecting _).bind fun _ => popIntegers count

theorem invoke (kind : InvokeKind) (ref : MethodRef) :
    KeepsLocals size (Transfer.instruction (.invoke kind ref)) := by
  dsimp only [Transfer.instruction]
  refine (forIn _ (fun _ => popExpecting _) _).bind fun _ => ?_
  -- the receiver of an instance method, then the result
  split
  · refine (popExpecting _).bind fun _ => ?_
    split
    · exact push _
    · exact pure ()
  · split
    · exact push _
    · exact pure ()

/-- **Every transfer rule keeps the number of locals**, on a frame with room for the local slots
the instruction touches. -/
theorem instruction {instruction : Instruction}
    (fits : ∀ slot width, instruction.localSlot? = some (slot, width) → slot.toNat + width ≤ size) :
    KeepsLocals size (Transfer.instruction instruction) := by
  cases instruction with
  | nop => exact pure ()
  | aconstNull | iconst _ | bipush _ | sipush _ | lconst _ | fconst _ | dconst _ | ldc _ =>
    exact push _
  | load type slot =>
    have fit := fits _ _ rfl
    have wide : 0 < type.width := by cases type <;> decide
    exact load (by omega) _
  | store type slot =>
    have fit := fits _ _ rfl
    cases type with
    | reference =>
      -- `astore` stores a return address or a reference, both of one slot
      refine get_bind fun frame _ => ?_
      dsimp only
      split <;> exact store fit
    | int | long | float | double => exact store fit
  | iinc slot _ | ret slot =>
    have fit := fits _ _ rfl
    exact expectLocal (by omega) _
  | arrayLoad element => exact arrayLoad _
  | arrayStore element => exact arrayStore _
  | stack op => exact stackOp op
  | arith _ type | neg type => first | exact binary _ _ _ | exact unary _ _
  | shift _ isLong | bitwise _ isLong => cases isLong <;> exact binary _ _ _
  | convert conversion => cases conversion <;> exact unary _ _
  | lcmp | fcmp _ | dcmp _ => exact binary _ _ _
  | field access ref =>
    cases access with
    | getStatic => exact push _
    | putStatic => exact popExpecting _
    | getField => exact (popExpecting _).bind fun _ => push _
    | putField => exact (popExpecting _).bind fun _ => popExpecting _
  | invoke kind ref => exact invoke kind ref
  | typeOp op type =>
    cases op with
    | new => exact push _
    | aNewArray | checkCast | instanceOf => exact unary _ _
  | newArray _ | arrayLength => exact unary _ _
  | monitorEnter | monitorExit => exact popExpecting _
  | multiANewArray type dimensions => exact (popIntegers _).bind fun _ => push _

theorem returning (returnType : Option FieldType) (type : VerificationType) :
    KeepsLocals size (Transfer.returning returnType type) := by
  unfold Transfer.returning
  split
  · split
    · exact popExpecting type
    · exact throw fun _ => VerifierFault.noConfusion
  · exact throw fun _ => VerifierFault.noConfusion

/-- Branches touch no local slot at all. -/
theorem branch (returnType : Option FieldType) (branch : Branch Label) :
    KeepsLocals size (Transfer.branch returnType branch) := by
  cases branch with
  | ifZero | tableSwitch | lookupSwitch | ifNull | athrow => exact popExpecting _
  | ifICmp | ifACmp => exact (popExpecting _).bind fun _ => popExpecting _
  | goto | jsr => exact pure ()
  | returnValue type => exact returning _ _
  | returnVoid =>
    dsimp only [Transfer.branch]
    split
    · exact throw fun _ => VerifierFault.noConfusion
    · exact pure ()

end KeepsLocals

end Transfer

/-! ## The entry frame -/

namespace Frame

/-- Each parameter takes its slots in the entry frame: a wide one is followed by `top`. -/
theorem length_parameterLocals : ∀ parameters : List FieldType,
    (parameters.flatMap fun parameter =>
      if (VerificationType.ofFieldType parameter).width == 2 then
        [VerificationType.ofFieldType parameter, .top]
      else [VerificationType.ofFieldType parameter]).length =
      (parameters.map FieldType.width).foldr (· + ·) 0
  | [] => rfl
  | parameter :: rest => by
    rw [List.flatMap_cons, List.length_append, length_parameterLocals rest, List.map_cons,
      List.foldr_cons, ← VerificationType.width_ofFieldType]
    cases VerificationType.ofFieldType parameter <;> rfl

/-- With room for the receiver and the parameters, the entry frame has exactly `maxLocals`
locals. -/
theorem entry_size (method : Method) {maxLocals : Nat} (room : method.parameterSlots ≤ maxLocals) :
    (entry method.isStatic method.descriptor.parameters maxLocals).locals.size = maxLocals := by
  unfold entry Method.parameterSlots MethodDescriptor.parameterSlots at *
  dsimp only at *
  rw [List.size_toArray, List.length_append, List.length_replicate, List.length_append,
    length_parameterLocals]
  generalize method.isStatic = isStatic at room ⊢
  cases isStatic <;> simp at room ⊢ <;> omega

/- The receiver, a `long` parameter in two slots, and `top` up to the slots the body needs. -/
example : (entry false [.base .long, .base .int] 5).locals =
    #[.reference, .long, .top, .integer, .top] := by
  decide

end Frame

/-! ## Flow graph errors -/

namespace ClassError

/-- An error that is not a verification failure. -/
def NotVerification (err : ClassError) : Prop := ∀ failure, err ≠ .verification failure

end ClassError

namespace FlowGraph

theorem labelPosition_holds (positions : Std.HashMap Label Nat) (label : Label) :
    ExceptHolds ClassError.NotVerification (fun _ => True) (labelPosition positions label) := by
  unfold labelPosition
  split
  · trivial
  · exact fun _ => ClassError.noConfusion

theorem branchTargets_holds (graph : FlowGraph) (branch : Branch Label) :
    ExceptHolds ClassError.NotVerification (fun _ => True) (graph.branchTargets branch) :=
  ExceptHolds.mapM (fun _ => labelPosition_holds _ _) _

/-- Building the flow graph fails only on misplaced labels, and keeps the entries. -/
theorem ofBody_holds (body : Body) :
    ExceptHolds ClassError.NotVerification (fun graph => graph.entries = body.entries)
      (ofBody body) := by
  unfold ofBody placeLabels
  refine (ExceptHolds.foldlM (fun positions item => ?_) _ _).bind fun positions _ => ?_
  · obtain ⟨entry, index⟩ := item
    dsimp only
    split
    · split
      · exact fun _ => ClassError.noConfusion
      · trivial
    · trivial
  · refine (ExceptHolds.mapM (fun handler => ?_) _).bind fun ranges _ => rfl
    exact (labelPosition_holds _ _).bind fun _ _ => (labelPosition_holds _ _).bind fun _ _ =>
      (labelPosition_holds _ _).bind fun _ _ => trivial

theorem ofBody_entries {body : Body} {graph : FlowGraph} (built : ofBody body = .ok graph) :
    graph.entries = body.entries :=
  (ofBody_holds body).of_ok built

end FlowGraph

/-! ## The worklist keeps the number of locals -/

namespace VerifyStop

/-- A stop that is not about a local slot: a fault of another kind, or a flow-graph error that
is not a verification failure. -/
def NotLocal : VerifyStop → Prop
  | .fault _ problem => Transfer.NotLocal problem
  | .graph err => err.NotVerification

theorem faultAt_holds {α : Type} {post : α → Prop} (index : Nat) {result : Except VerifierFault α}
    (holds : ExceptHolds Transfer.NotLocal post result) :
    ExceptHolds NotLocal post (faultAt index result) :=
  holds.mapError fun _ notLocal => notLocal

theorem graph_holds {α : Type} {post : α → Prop} {result : Except ClassError α}
    (holds : ExceptHolds ClassError.NotVerification post result) :
    ExceptHolds NotLocal post (result.mapError graph) :=
  holds.mapError fun _ notVerification => notVerification

end VerifyStop

namespace Frame

/-- A merge keeps the locals of the frame merged into, and fails only on stack heights. -/
theorem merge_holds (frame incoming : Frame) :
    ExceptHolds Transfer.NotLocal (fun result : Frame × Bool => result.1.locals.size = frame.locals.size)
      (frame.merge incoming) := by
  cases merging : frame.merge incoming with
  | ok result => exact (merge_widens merging).1.size
  | error fault =>
    unfold merge at merging
    split at merging
    · cases merging
      exact fun _ => VerifierFault.noConfusion
    · cases merging

end Frame

namespace Verification

/-- Every frame of the state has `size` locals. -/
def Sized (size : Nat) (state : Verification) : Prop :=
  ∀ (index : Nat) (frame : Frame), state.frames[index]? = some (some frame) → frame.locals.size = size

variable {size : Nat}

theorem Sized.frame {state : Verification} (sized : state.Sized size) {index : Nat} {frame : Frame}
    (found : state.frames[index]?.join = some frame) : frame.locals.size = size :=
  sized index frame (Option.join_eq_some_iff.mp found)

theorem Sized.set {state : Verification} (sized : state.Sized size) {target : Nat} {frame : Frame}
    (frameSized : frame.locals.size = size) (pending : List Nat) :
    Sized size ⟨state.frames.set! target (some frame), pending⟩ := by
  intro index later found
  rw [Array.set!_eq_setIfInBounds, Array.getElem?_setIfInBounds] at found
  split_ifs at found
  · cases found
    exact frameSized
  · exact sized index later found

theorem replicate_sized (count : Nat) (pending : List Nat) :
    Sized size ⟨Array.replicate count none, pending⟩ := by
  intro index frame found
  rw [Array.getElem?_replicate] at found
  split at found <;> cases found

/-- A flow of a frame with `size` locals keeps every frame at `size` locals: a new frame is the
one that flows in, a merged one keeps the locals of the frame already there. -/
theorem flowInto_sized {state : Verification} (sized : state.Sized size) (target : Nat)
    {frame : Frame} (frameSized : frame.locals.size = size) :
    ExceptHolds Transfer.NotLocal (Sized size) (state.flowInto target frame) := by
  unfold flowInto
  split
  · exact fun _ => VerifierFault.noConfusion
  · rename_i existing found
    dsimp only
    split
    · rename_i known
      refine ((Frame.merge_holds known frame).mono (fun _ notLocal => notLocal)
        fun _ same => same.trans (sized target known found)).bind fun result mergedSized => ?_
      obtain ⟨merged, changed⟩ := result
      exact sized.set mergedSized _
    · exact sized.set frameSized _

theorem flowIntoAll_sized : ∀ {state : Verification} (_ : state.Sized size)
    {flows : List (Nat × Frame)} (_ : ∀ flow ∈ flows, flow.2.locals.size = size),
    ExceptHolds Transfer.NotLocal (Sized size) (state.flowIntoAll flows)
  | _, sized, [], _ => sized
  | _, sized, flow :: rest, flowsSized => by
    unfold flowIntoAll
    rw [List.foldlM_cons]
    exact (flowInto_sized sized flow.1 (flowsSized flow List.mem_cons_self)).bind
      fun next nextSized =>
        flowIntoAll_sized nextSized fun other member => flowsSized other (List.mem_cons_of_mem _ member)

end Verification

namespace FlowGraph

variable {size : Nat}

/-- A branch passes one frame to its targets and one to the next entry. -/
theorem branchFlows_sized {targets : List Nat} {intoTarget after : Frame} {falls : Bool}
    {index : Nat} (intoSized : intoTarget.locals.size = size) (afterSized : after.locals.size = size) :
    ∀ flow ∈ targets.map (·, intoTarget) ++ (if falls then [(index + 1, after)] else []),
      flow.2.locals.size = size := by
  intro flow member
  rcases List.mem_append.mp member with intoTargets | fallThrough
  · obtain ⟨_, _, rfl⟩ := List.mem_map.mp intoTargets
    exact intoSized
  · split at fallThrough
    · rw [List.mem_singleton.mp fallThrough]
      exact afterSized
    · cases fallThrough

/-- From a frame with `size` locals, at a position whose local slots lie below `size`, every
successor frame has `size` locals, and no fault is about a local slot. -/
theorem successors_sized (graph : FlowGraph) (returnType : Option FieldType) (index : Nat)
    {frame : Frame} (frameSized : frame.locals.size = size) (fits : LocalsFit graph.entries size) :
    ExceptHolds VerifyStop.NotLocal (fun flows => ∀ flow ∈ flows, flow.2.locals.size = size)
      (graph.successors returnType index frame) := by
  unfold successors
  split
  · intro flow member
    rw [List.mem_singleton.mp member]
    exact frameSized
  · rename_i instruction found
    have keeps := (Transfer.KeepsLocals.instruction (fits index instruction found)).frame_after frameSized
    refine (VerifyStop.faultAt_holds index keeps).bind
      fun after afterSized => ?_
    split
    · intro _ member
      cases member
    · intro flow member
      rw [List.mem_singleton.mp member]
      exact afterSized
  · rename_i branch found
    have keeps := (Transfer.KeepsLocals.branch returnType branch).frame_after frameSized
    refine (VerifyStop.faultAt_holds index keeps).bind
      fun after afterSized => ?_
    dsimp only
    -- a `jsr` target receives the return address on the stack, with the same locals
    split <;> exact (VerifyStop.graph_holds (graph.branchTargets_holds _)).bind fun _ _ =>
      branchFlows_sized afterSized afterSized
  · intro _ member
    cases member

end FlowGraph

namespace Verification

variable {size : Nat}

/-- Looking at a position keeps every frame at `size` locals, and fails only for reasons other
than a local slot. -/
theorem visit_sized (graph : FlowGraph) (returnType : Option FieldType) (index : Nat)
    (fits : LocalsFit graph.entries size) {state : Verification} (sized : state.Sized size) :
    ExceptHolds VerifyStop.NotLocal (Sized size) (visit graph returnType index state) := by
  unfold visit
  split
  · exact sized
  · rename_i frame found
    have frameSized := sized.frame found
    have intoHandlers : ∀ flow ∈ graph.handlerFlows index frame, flow.2.locals.size = size := by
      intro flow member
      obtain ⟨_, _, rfl⟩ := List.mem_map.mp member
      exact frameSized
    refine (VerifyStop.faultAt_holds index (flowIntoAll_sized sized intoHandlers)).bind
      fun handled handledSized => ?_
    exact (graph.successors_sized returnType index frameSized fits).bind fun flows flowsSized =>
      VerifyStop.faultAt_holds index (flowIntoAll_sized handledSized flowsSized)

theorem step_sized (graph : FlowGraph) (returnType : Option FieldType)
    (fits : LocalsFit graph.entries size) {state : Verification} (sized : state.Sized size) :
    ExceptHolds VerifyStop.NotLocal (fun reached => ∀ next ∈ reached, next.Sized size)
      (step graph returnType state) := by
  unfold step
  split
  · intro _ member
    cases member
  · rename_i index rest _
    change ExceptHolds _ _ (Except.map some _)
    refine (visit_sized graph returnType index fits
      (show Sized size { state with pending := rest } from sized)).map fun next nextSized => ?_
    intro _ member
    cases member
    exact nextSized

/-- **Every state the worklist reaches keeps every frame at `size` locals.** -/
theorem steps_sized (graph : FlowGraph) (returnType : Option FieldType)
    (fits : LocalsFit graph.entries size) :
    ∀ (count : Nat) {state : Verification}, state.Sized size →
      ExceptHolds VerifyStop.NotLocal (fun reached => ∀ next ∈ reached, next.Sized size)
        (steps graph returnType count state)
  | 0, _, sized => fun _ member => by
    cases member
    exact sized
  | count + 1, _, sized => by
    rw [steps]
    refine (step_sized graph returnType fits sized).bind fun reached reachedSized => ?_
    split
    · intro _ member
      cases member
    · exact steps_sized graph returnType fits count (reachedSized _ rfl)

/-- A run from a state whose frames have `size` locals fails only for reasons other than a
local slot. -/
theorem run_holds (graph : FlowGraph) (returnType : Option FieldType)
    (fits : LocalsFit graph.entries size) {state : Verification} (sized : state.Sized size) :
    ExceptHolds VerifyStop.NotLocal (fun _ => True) (run graph returnType state) := by
  induction state using Verification.run.induct graph returnType with
  | case1 state stop stepped =>
    rw [run, stepped]
    exact (step_sized graph returnType fits sized).of_error stepped
  | case2 state stepped =>
    rw [run, stepped]
    trivial
  | case3 state next stepped continues =>
    rw [run_of_step stepped]
    exact continues ((step_sized graph returnType fits sized).of_ok stepped next rfl)

end Verification

/-! ## Verification never reports an invalid local -/

theorem Meets.liftExcept_of_holds {ε α : Type} {allowed : ε → Prop} {post : α → Prop}
    {result : Except ε α} (holds : ExceptHolds allowed post result) :
    Meets allowed post (ClassKit.liftExcept result) :=
  Meets.liftExcept (by cases result <;> exact holds)

namespace Method

/-- A graph with the body's entries: `Body.maxLocals` covers its local slots. -/
theorem graph_fits {body : Body} {graph : FlowGraph} (same : graph.entries = body.entries)
    (parameterSlots : Nat) : LocalsFit graph.entries (body.maxLocals parameterSlots) := by
  rw [same]
  exact (body.maxLocals_covers parameterSlots).2

/-- The entry frame, flowing into the first position, starts the worklist with frames of
`Body.maxLocals` locals. -/
theorem start_sized (method : Method) (body : Body) (count : Nat) :
    ExceptHolds Transfer.NotLocal (Verification.Sized (body.maxLocals method.parameterSlots))
      ((⟨Array.replicate count none, []⟩ : Verification).flowInto 0
        (Frame.entry method.isStatic method.descriptor.parameters
          (body.maxLocals method.parameterSlots))) :=
  Verification.flowInto_sized (Verification.replicate_sized _ _) 0
    (Frame.entry_size method (body.maxLocals_covers _).1)

/-- Whatever the journal, verification fails, if it fails, with an error that is not an
`invalidLocal` failure. -/
theorem verify_meets_notLocal (className : BinaryName) (method : Method) :
    Meets (fun err => ∀ failure, err = .verification failure → Transfer.NotLocal failure.fault)
      (fun _ => True) (method.verify className) := by
  unfold verify
  split
  · exact Meets.pure trivial
  · rename_i body _
    -- building the graph fails only on labels
    refine Meets.bind (Meets.liftExcept_of_holds ((FlowGraph.ofBody_holds body).mono
      (fun _ notVerification failure same => absurd same (notVerification failure))
      fun _ same => graph_fits same method.parameterSlots)) fun graph fits => ?_
    have started := start_sized method body graph.size
    dsimp only
    -- the entry frame fits, so the first flow and the run fail, if at all, for other reasons
    cases flowed : (⟨Array.replicate graph.size none, []⟩ : Verification).flowInto 0
      (Frame.entry method.isStatic method.descriptor.parameters
        (body.maxLocals method.parameterSlots)) with
    | error fault =>
      exact Meets.bind (Q := fun _ => True) (Meets.of_lift fun _ => trivial) fun _ _ =>
        Meets.throw fun failure same => by
          cases same
          exact started.of_error flowed
    | ok first =>
      have ran := Verification.run_holds graph method.descriptor.returnType fits
        (started.of_ok flowed)
      dsimp only
      split
      · exact Meets.pure trivial
      · rename_i err stopped
        exact Meets.throw fun failure same => absurd same (ran.of_error stopped failure)
      · rename_i index fault stopped
        exact Meets.bind (Q := fun _ => True) (Meets.of_lift fun _ => trivial) fun _ _ =>
          Meets.throw fun failure same => by
            cases same
            exact ran.of_error stopped

/-- **The verifier never reports an invalid local.** Every frame the worklist stores while
verifying a method's body, from the entry frame on, has exactly `Body.maxLocals` locals; so
verification of any method, whatever the journal, fails, if it fails, with a fault other than
`invalidLocal`. -/
theorem verify_never_reports_invalid_local (className : BinaryName) (method : Method) :
    (∀ body, method.body = some body → ∀ graph, FlowGraph.ofBody body = .ok graph →
      ∀ first, (⟨Array.replicate graph.size none, []⟩ : Verification).flowInto 0
          (Frame.entry method.isStatic method.descriptor.parameters
            (body.maxLocals method.parameterSlots)) = .ok first →
        ∀ count state, Verification.steps graph method.descriptor.returnType count first =
            .ok (some state) →
          state.Sized (body.maxLocals method.parameterSlots)) ∧
      Meets (fun err => ∀ failure, err = .verification failure →
          ∀ slot, failure.fault ≠ .invalidLocal slot)
        (fun _ => True) (method.verify className) := by
  refine ⟨fun body _ graph built first started count state reached => ?_,
    verify_meets_notLocal className method⟩
  have firstSized := (start_sized method body graph.size).of_ok started
  exact (Verification.steps_sized graph method.descriptor.returnType
    (graph_fits (FlowGraph.ofBody_entries built) _) count firstSized).of_ok reached state rfl

end Method

end ClassKit
