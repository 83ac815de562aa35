import ClassKit.Proofs.VerifierSoundness
import Mathlib

/-!
# Verifying straight bodies

A body is *straight* when it has no labels and no handlers, and its instructions run one after
another into a final branch that neither jumps nor falls through: a return or an `athrow`. The
worklist then looks at each position once, in order, each time reaching the next position for
the first time, so verification comes down to running the transfer rules in sequence. A method
with a straight body passes exactly when the rules of its instructions and of its final branch
all succeed, one after another, from the entry frame (`Method.verify_straight_iff`).
-/

namespace ClassKit

namespace Transfer

/-- The transfer rules of a straight body: its instructions in order, then its final branch. -/
def straight (returnType : Option FieldType) (instructions : List Instruction)
    (last : Branch Label) : Transfer Unit := do
  forM instructions Transfer.instruction
  Transfer.branch returnType last

theorem straight_nil (returnType : Option FieldType) (last : Branch Label) :
    straight returnType [] last = Transfer.branch returnType last := by
  simp only [straight, List.forM_nil, pure_bind]

theorem straight_cons (returnType : Option FieldType) (first : Instruction)
    (rest : List Instruction) (last : Branch Label) :
    straight returnType (first :: rest) last =
      (Transfer.instruction first >>= fun _ => straight returnType rest last) := by
  simp only [straight, List.forM_cons, bind_assoc]

theorem straight_append (returnType : Option FieldType) (first rest : List Instruction)
    (last : Branch Label) :
    straight returnType (first ++ rest) last =
      (forM first Transfer.instruction >>= fun _ => straight returnType rest last) := by
  simp only [straight, List.forM_append, bind_assoc]

end Transfer

/-! ## The flow graph of a straight body -/

theorem foldlM_eq_ok_of_keeps {α β ε : Type} (step : β → α → Except ε β) (start : β) :
    ∀ items : List α, (∀ item ∈ items, step start item = .ok start) →
      items.foldlM step start = .ok start
  | [], _ => rfl
  | item :: rest, keeps => by
    rw [List.foldlM_cons, keeps item List.mem_cons_self]
    exact foldlM_eq_ok_of_keeps step start rest fun other mem => keeps other (List.mem_cons_of_mem _ mem)

namespace FlowGraph

/-- A body without labels places none. -/
theorem placeLabels_of_unlabelled {entries : Array Entry}
    (unlabelled : ∀ label, Entry.label label ∉ entries.toList) : placeLabels entries = .ok {} := by
  unfold placeLabels
  apply foldlM_eq_ok_of_keeps
  rintro ⟨entry, index⟩ mem
  cases entry with
  | label label => exact absurd (List.fst_mem_of_mem_zipIdx mem) (unlabelled label)
  | instruction _ => rfl
  | branch _ => rfl

/-- The flow graph of a body without labels and handlers: its entries, with no label positions
and no handler ranges. -/
theorem ofBody_of_unlabelled {body : Body} (unlabelled : ∀ label, Entry.label label ∉ body.entries.toList)
    (noHandlers : body.handlers = []) :
    FlowGraph.ofBody body = .ok ⟨body.entries, {}, []⟩ := by
  unfold ofBody
  rw [placeLabels_of_unlabelled unlabelled, noHandlers]
  rfl

/-- With no handler ranges no position is covered. -/
theorem handlerFlows_of_noRanges {graph : FlowGraph} (noRanges : graph.ranges = []) (index : Nat)
    (frame : Frame) : graph.handlerFlows index frame = [] := by
  simp only [handlerFlows, covering, noRanges, List.filter_nil, List.map_nil]

/-- An instruction other than `ret` passes its frame on to the next position. -/
theorem successors_instruction {graph : FlowGraph} {returnType : Option FieldType} {index : Nat}
    {instruction : Instruction} (found : graph.entries[index]? = some (.instruction instruction))
    (notRet : ∀ slot, instruction ≠ .ret slot) (frame : Frame) :
    graph.successors returnType index frame =
      VerifyStop.faultAt index
        (((Transfer.instruction instruction).run frame).map fun result => [(index + 1, result.2)]) := by
  unfold successors
  rw [found]
  dsimp only
  cases ran : (Transfer.instruction instruction).run frame with
  | error fault => rfl
  | ok result =>
    dsimp only [Except.map, VerifyStop.faultAt, Except.mapError]
    split
    · rename_i slot
      exact absurd rfl (notRet slot)
    · rfl

/-- A branch without targets that does not fall through passes nothing on. -/
theorem successors_final {graph : FlowGraph} {returnType : Option FieldType} {index : Nat}
    {last : Branch Label} (found : graph.entries[index]? = some (.branch last))
    (noTargets : last.targets = []) (stops : last.fallsThrough = false) (frame : Frame) :
    graph.successors returnType index frame =
      VerifyStop.faultAt index (((Transfer.branch returnType last).run frame).map fun _ => []) := by
  unfold successors
  rw [found]
  dsimp only
  cases ran : (Transfer.branch returnType last).run frame with
  | error fault => rfl
  | ok result =>
    simp only [branchTargets, noTargets, stops]
    rfl

end FlowGraph

/-! ## The worklist on a straight body -/

namespace Verification

variable {graph : FlowGraph} {returnType : Option FieldType}

/-- The worklist has reached position `index` of a straight body and nothing after it: the
frame there is `frame`, no later position has a frame, and `index` alone is pending. -/
structure ReachedOnly (graph : FlowGraph) (state : Verification) (index : Nat) (frame : Frame) :
    Prop where
  size : state.frames.size = graph.entries.size
  here : state.frames[index]? = some (some frame)
  ahead : ∀ later, index < later → later < graph.entries.size → state.frames[later]? = some none
  pending : state.pending = [index]

/-- A frame flowing into a position without one becomes its frame, and the position is pending. -/
theorem flowInto_fresh {state : Verification} {target : Nat} (frame : Frame)
    (fresh : state.frames[target]? = some none) (idle : state.pending = []) :
    state.flowInto target frame = .ok ⟨state.frames.set! target (some frame), [target]⟩ := by
  unfold flowInto
  rw [fresh, idle]
  rfl

/-- Looking at the one pending position of a straight body: its frame flows to its successors. -/
theorem step_reached {state : Verification} {index : Nat} {frame : Frame}
    (reached : ReachedOnly graph state index frame) (noRanges : graph.ranges = []) :
    step graph returnType state = some <$> (graph.successors returnType index frame >>= fun flows =>
      VerifyStop.faultAt index ({ state with pending := [] }.flowIntoAll flows)) := by
  unfold step
  rw [reached.pending]
  dsimp only
  unfold visit
  dsimp only
  rw [reached.here, Option.join_some]
  dsimp only
  rw [FlowGraph.handlerFlows_of_noRanges noRanges]
  rfl

theorem step_instruction_ok {state : Verification} {index : Nat} {frame after : Frame}
    {instruction : Instruction} (reached : ReachedOnly graph state index frame)
    (noRanges : graph.ranges = []) (found : graph.entries[index]? = some (.instruction instruction))
    (notRet : ∀ slot, instruction ≠ .ret slot) (next : index + 1 < graph.entries.size)
    (ran : (Transfer.instruction instruction).run frame = .ok ((), after)) :
    step graph returnType state =
      .ok (some ⟨state.frames.set! (index + 1) (some after), [index + 1]⟩) := by
  have fresh := reached.ahead (index + 1) (Nat.lt_succ_self index) next
  rw [step_reached reached noRanges, FlowGraph.successors_instruction found notRet, ran]
  show some <$> VerifyStop.faultAt index
    ((⟨state.frames, []⟩ : Verification).flowInto (index + 1) after >>= fun state => .ok state) = _
  rw [@flowInto_fresh ⟨state.frames, []⟩ (index + 1) after fresh rfl]
  rfl

theorem step_instruction_error {state : Verification} {index : Nat} {frame : Frame}
    {instruction : Instruction} {fault : VerifierFault} (reached : ReachedOnly graph state index frame)
    (noRanges : graph.ranges = []) (found : graph.entries[index]? = some (.instruction instruction))
    (notRet : ∀ slot, instruction ≠ .ret slot)
    (failed : (Transfer.instruction instruction).run frame = .error fault) :
    step graph returnType state = .error (.fault index fault) := by
  rw [step_reached reached noRanges, FlowGraph.successors_instruction found notRet, failed]
  rfl

theorem step_final {state : Verification} {index : Nat} {frame : Frame} {last : Branch Label}
    (reached : ReachedOnly graph state index frame) (noRanges : graph.ranges = [])
    (found : graph.entries[index]? = some (.branch last)) (noTargets : last.targets = [])
    (stops : last.fallsThrough = false) :
    step graph returnType state =
      (((Transfer.branch returnType last).run frame).map fun _ => some { state with pending := [] }).mapError
        (VerifyStop.fault index) := by
  rw [step_reached reached noRanges, FlowGraph.successors_final found noTargets stops]
  cases (Transfer.branch returnType last).run frame <;> rfl

/-- The next position, reached for the first time, is the only one pending. -/
theorem ReachedOnly.next {state : Verification} {index : Nat} {frame : Frame}
    (reached : ReachedOnly graph state index frame) (next : index + 1 < graph.entries.size)
    (after : Frame) :
    ReachedOnly graph ⟨state.frames.set! (index + 1) (some after), [index + 1]⟩ (index + 1) after where
  size := by simp only [Array.set!_eq_setIfInBounds, Array.size_setIfInBounds, reached.size]
  here := by
    rw [Array.set!_eq_setIfInBounds, Array.getElem?_setIfInBounds_self_of_lt (reached.size ▸ next)]
  ahead := by
    intro later beyond inside
    rw [Array.set!_eq_setIfInBounds, Array.getElem?_setIfInBounds_ne (Nat.ne_of_lt beyond)]
    exact reached.ahead later (by omega) inside
  pending := rfl

theorem run_of_step_error {state : Verification} {stop : VerifyStop}
    (stepped : step graph returnType state = .error stop) :
    Verification.run graph returnType state = .error stop := by
  rw [Verification.run, stepped]

theorem run_idle {state : Verification} (idle : state.pending = []) :
    Verification.run graph returnType state = .ok () := by
  have stepped : step graph returnType state = .ok none := by
    unfold step
    rw [idle]
  rw [Verification.run, stepped]

/-- The entry at a position, and the entries after it. -/
theorem getElem?_of_drop_eq_cons {α : Type} {items : List α} {index : Nat} {first : α}
    {more : List α} (dropped : items.drop index = first :: more) :
    items[index]? = some first ∧ items.drop (index + 1) = more := by
  constructor
  · rw [← Nat.add_zero index, ← List.getElem?_drop, dropped]
    rfl
  · rw [← List.drop_drop, dropped]
    rfl

/-- **The worklist on a straight body.** From a state that has reached position `index` and
nothing beyond it, the run succeeds exactly when the transfer rules of the instructions left and
of the final branch succeed in sequence from the frame at `index`. -/
theorem run_straight_iff (noRanges : graph.ranges = []) {last : Branch Label}
    (noTargets : last.targets = []) (stops : last.fallsThrough = false) :
    ∀ (rest : List Instruction) {index : Nat} {state : Verification} {frame : Frame},
      (∀ instruction ∈ rest, ∀ slot, instruction ≠ .ret slot) →
      graph.entries.toList.drop index = rest.map Entry.instruction ++ [Entry.branch last] →
      ReachedOnly graph state index frame →
      (Verification.run graph returnType state = .ok () ↔
        ∃ after, (Transfer.straight returnType rest last).run frame = .ok ((), after))
  | [], index, state, frame, _, remaining, reached => by
    have found : graph.entries[index]? = some (.branch last) := by
      rw [← Array.getElem?_toList]
      exact (getElem?_of_drop_eq_cons remaining).1
    rw [Transfer.straight_nil]
    cases ran : (Transfer.branch returnType last).run frame with
    | error fault =>
      -- the final rule fails, and the run stops there
      have stepped : step graph returnType state = .error (.fault index fault) := by
        rw [step_final reached noRanges found noTargets stops, ran]
        rfl
      rw [run_of_step_error stepped]
      constructor
      · intro stopped
        cases stopped
      · rintro ⟨after, failed⟩
        cases failed
    | ok result =>
      have stepped : step graph returnType state = .ok (some { state with pending := [] }) := by
        rw [step_final reached noRanges found noTargets stops, ran]
        rfl
      rw [run_of_step stepped, run_idle rfl]
      exact ⟨fun _ => ⟨result.2, rfl⟩, fun _ => rfl⟩
  | instruction :: rest, index, state, frame, noRet, remaining, reached => by
    obtain ⟨found, remaining'⟩ := getElem?_of_drop_eq_cons remaining
    rw [Array.getElem?_toList] at found
    have next : index + 1 < graph.entries.size := by
      have lengths := congrArg List.length remaining
      simp only [List.length_drop, Array.length_toList, List.map_cons, List.cons_append,
        List.length_cons, List.length_append, List.length_map] at lengths
      omega
    have notRet := noRet instruction List.mem_cons_self
    have restNoRet := fun other mem => noRet other (List.mem_cons_of_mem instruction mem)
    rw [Transfer.straight_cons, StateT.run_bind]
    cases ran : (Transfer.instruction instruction).run frame with
    | error fault =>
      rw [run_of_step_error (step_instruction_error reached noRanges found notRet ran)]
      constructor
      · intro stopped
        cases stopped
      · rintro ⟨after, failed⟩
        cases failed
    | ok result =>
      -- the next position is reached for the first time, and the run goes on from there
      obtain ⟨⟨⟩, after⟩ := result
      rw [run_of_step (step_instruction_ok reached noRanges found notRet next ran)]
      exact run_straight_iff noRanges noTargets stops rest restNoRet remaining' (reached.next next after)

/-- The first look at a body: the entry frame becomes the frame of its first position. -/
theorem ReachedOnly.start (graph : FlowGraph) (entry : Frame) (nonempty : 0 < graph.entries.size) :
    ∃ state, (⟨Array.replicate graph.size none, []⟩ : Verification).flowInto 0 entry = .ok state ∧
      ReachedOnly graph state 0 entry := by
  have fresh : (Array.replicate graph.size (none : Option Frame))[0]? = some none := by
    rw [Array.getElem?_replicate, if_pos (show 0 < graph.size from nonempty)]
  refine ⟨_, flowInto_fresh entry fresh rfl, ?_⟩
  constructor
  · simp only [Array.set!_eq_setIfInBounds, Array.size_setIfInBounds, Array.size_replicate,
      FlowGraph.size]
  · rw [Array.set!_eq_setIfInBounds, Array.getElem?_setIfInBounds_self_of_lt
      (by simpa [FlowGraph.size] using nonempty)]
  · intro later beyond inside
    rw [Array.set!_eq_setIfInBounds, Array.getElem?_setIfInBounds_ne (Nat.ne_of_lt beyond),
      Array.getElem?_replicate, if_pos (show later < graph.size from inside)]
  · rfl

end Verification

theorem liftExcept_ok_bind {ε α β : Type} (value : α) (rest : α → LogExcept ε β) :
    (liftExcept (.ok value) >>= rest) = rest value := rfl

namespace Method

/-- **A method with a straight body passes verification exactly when the transfer rules of its
instructions and of its final branch succeed one after another from its entry frame.** -/
theorem verify_straight_iff {className : BinaryName} {method : Method} {body : Body}
    {instructions : List Instruction} {last : Branch Label} (found : method.body = some body)
    (shape : body.entries.toList = instructions.map Entry.instruction ++ [Entry.branch last])
    (noHandlers : body.handlers = []) (noRet : ∀ instruction ∈ instructions, ∀ slot, instruction ≠ .ret slot)
    (noTargets : last.targets = []) (stops : last.fallsThrough = false) (journal : Journal) :
    ((method.verify className).run.run journal).1 = .ok () ↔
      ∃ after, (Transfer.straight method.descriptor.returnType instructions last).run
        (Frame.entry method.isStatic method.descriptor.parameters
          (body.maxLocals method.parameterSlots)) = .ok ((), after) := by
  have unlabelled : ∀ label, Entry.label label ∉ body.entries.toList := by
    intro label mem
    simp [shape] at mem
  have nonempty : 0 < body.entries.size := by
    rw [← Array.length_toList, shape]
    simp
  obtain ⟨state, flowed, reached⟩ :=
    Verification.ReachedOnly.start ⟨body.entries, {}, []⟩ (Frame.entry method.isStatic
      method.descriptor.parameters (body.maxLocals method.parameterSlots)) nonempty
  have straight : Verification.run _ method.descriptor.returnType state = .ok () ↔ _ :=
    Verification.run_straight_iff rfl noTargets stops instructions noRet
      (by rw [List.drop_zero]; exact shape) reached
  unfold verify
  rw [found]
  dsimp only
  rw [FlowGraph.ofBody_of_unlabelled unlabelled noHandlers, liftExcept_ok_bind, flowed]
  dsimp only
  rw [← straight]
  -- a run that stops, on a fault or on a missing label, fails the method
  cases Verification.run ⟨body.entries, {}, []⟩ method.descriptor.returnType state with
  | ok _ => exact ⟨fun _ => rfl, fun _ => rfl⟩
  | error stop =>
    refine ⟨fun passed => ?_, fun ran => by cases ran⟩
    cases stop <;> cases passed

end Method

end ClassKit
