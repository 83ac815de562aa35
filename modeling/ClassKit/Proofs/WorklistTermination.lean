import ClassKit.Proofs.VerifierSoundness

/-!
# The verifier's worklist ends

Once a position has a frame, the frame only widens: every merge keeps its stack height (frames
of another height do not merge, the flow is an error) and the number of its locals, and turns
slots into `top` or leaves them. A position that is looked at again has lost a known slot since
it was last queued: a merge that reports a change has turned a slot into `top`. The slots that
are not `top` can only run out, so the worklist empties, or stops on an error, after finitely
many steps, whatever the body: loops, subroutines and handlers covering their own code included
(`Verification.worklist_terminates`).

`Verification.run` is defined by well-founded recursion on the measure of `step_decreases`;
here the same facts are stated position by position, for the frames the worklist keeps.
-/

namespace ClassKit

/-! ## Widening never adds a known slot -/

namespace SlotsCover

theorem tail {slot other : VerificationType} {rest others : List VerificationType}
    (covers : SlotsCover (slot :: rest) (other :: others)) : SlotsCover rest others :=
  fun index known incoming found found' => covers (index + 1) known incoming found found'

/-- Slots that stand for slots as many as they are, each the same type or `top`, are known at
most as often. -/
theorem known_le : ∀ {mine theirs : List VerificationType}, SlotsCover mine theirs →
    mine.length = theirs.length → mine.countP (· != .top) ≤ theirs.countP (· != .top)
  | [], [], _, _ => Nat.le_refl _
  | slot :: rest, other :: others, covers, sameLength => by
    have restLe := known_le covers.tail (Nat.succ.inj sameLength)
    rcases covers 0 slot other rfl rfl with same | isTop
    · rw [same, List.countP_cons, List.countP_cons]
      omega
    · rw [isTop, List.countP_cons, List.countP_cons]
      simp only [bne_self_eq_false, Bool.false_eq_true, if_false]
      omega
  | [], _ :: _, _, sameLength => by simp at sameLength
  | _ :: _, [], _, sameLength => by simp at sameLength

end SlotsCover

theorem Frame.Widens.knownSlots_le {later earlier : Frame} (widens : later.Widens earlier) :
    Verification.knownSlots later ≤ Verification.knownSlots earlier := by
  unfold Verification.knownSlots
  rw [List.countP_append, List.countP_append]
  have locals := SlotsCover.known_le widens.covers.locals (by simp [widens.size])
  have stack := SlotsCover.known_le widens.covers.stack widens.covers.height
  omega

namespace Verification

/-! ## Positions are queued again only after losing a known slot -/

/-- Every position that `after` has pending and `before` had not, and that had a frame in
`before`, has lost a known slot since. -/
def Requeues (before after : Verification) : Prop :=
  ∀ (index : Nat) (known : Frame), before.frames[index]? = some (some known) →
    index ∈ after.pending → index ∉ before.pending →
      ∃ later, after.frames[index]? = some (some later) ∧ knownSlots later < knownSlots known

theorem Requeues.refl (state : Verification) : Requeues state state :=
  fun _ _ _ pending notPending => absurd pending notPending

/-- Requeueing composes along flows: the frames only widen in between, so a slot lost at
either end stays lost. -/
theorem Requeues.trans {first second third : Verification} (requeues : Requeues first second)
    (grows : Grows first second) (requeuesAgain : Requeues second third)
    (growsAgain : Grows second third) : Requeues first third := by
  intro index known found pending notPending
  obtain ⟨middle, middleFound, widens⟩ := grows.widens index known found
  by_cases middlePending : index ∈ second.pending
  · obtain ⟨lower, lowerFound, fewer⟩ := requeues index known found middlePending notPending
    obtain ⟨later, laterFound, widensAgain⟩ := growsAgain.widens index lower lowerFound
    exact ⟨later, laterFound, Nat.lt_of_le_of_lt widensAgain.knownSlots_le fewer⟩
  · obtain ⟨later, laterFound, fewer⟩ :=
      requeuesAgain index middle middleFound pending middlePending
    exact ⟨later, laterFound, Nat.lt_of_lt_of_le fewer widens.knownSlots_le⟩

/-- A flow queues only its target, and only when the merge there changed the frame. -/
theorem flowInto_requeues {state next : Verification} {target : Nat} {frame : Frame}
    (flowed : state.flowInto target frame = .ok next) : Requeues state next := by
  obtain ⟨existing, found, merged, changed, merging, rfl⟩ := flowInto_ok flowed
  intro index known knownFound pending notPending
  dsimp only at pending
  split at pending
  · rename_i requeued
    rcases List.mem_cons.mp pending with rfl | old
    · rw [found] at knownFound
      cases knownFound
      have inside : index < state.frames.size := (Array.getElem?_eq_some_iff.mp found).1
      have isChanged : changed = true := (Bool.and_eq_true_iff.mp requeued).1
      have fewer := (merge_settles merging).1
      rw [isChanged, if_pos rfl] at fewer
      refine ⟨merged, ?_, by omega⟩
      rw [Array.set!_eq_setIfInBounds, Array.getElem?_setIfInBounds, if_pos rfl, if_pos inside]
    · exact absurd old notPending
  · exact absurd pending notPending

theorem flowIntoAll_requeues :
    ∀ {state next : Verification} {flows : List (Nat × Frame)},
      state.flowIntoAll flows = .ok next → Requeues state next
  | state, next, [], flowed => by
    cases flowed
    exact Requeues.refl state
  | _, _, _ :: _, flowed => by
    obtain ⟨middle, first, rest⟩ := flowIntoAll_cons_ok flowed
    exact (flowInto_requeues first).trans (flowInto_grows first).1 (flowIntoAll_requeues rest)
      (flowIntoAll_grows rest).1

theorem visit_requeues {graph : FlowGraph} {returnType : Option FieldType} {index : Nat}
    {state next : Verification} (visited : visit graph returnType index state = .ok next) :
    Requeues state next := by
  rcases visit_ok visited with ⟨-, rfl⟩ | ⟨_, _, _, -, handlersFlowed, -, successorsFlowed⟩
  · exact Requeues.refl _
  · exact (flowIntoAll_requeues handlersFlowed).trans (flowIntoAll_grows handlersFlowed).1
      (flowIntoAll_requeues successorsFlowed) (flowIntoAll_grows successorsFlowed).1

/-! ## Steps of the worklist -/

section Steps

variable {graph : FlowGraph} {returnType : Option FieldType}

/-- A step keeps a frame at every position that had one, widened. -/
theorem step_widens {state next : Verification}
    (stepped : step graph returnType state = .ok (some next)) (index : Nat) (known : Frame)
    (found : state.frames[index]? = some (some known)) :
    ∃ later, next.frames[index]? = some (some later) ∧ later.Widens known := by
  rcases step_ok stepped with ⟨-, nothing⟩ | ⟨_, _, _, -, visited, same⟩
  · cases nothing
  cases same
  exact (visit_grows visited).1.widens index known found

/-- A step queues a position that is not already waiting behind the one it looks at only when
the frame there lost a known slot. -/
theorem step_requeues {state next : Verification}
    (stepped : step graph returnType state = .ok (some next)) (index : Nat) (known : Frame)
    (found : state.frames[index]? = some (some known)) (pending : index ∈ next.pending)
    (notWaiting : index ∉ state.pending.tail) :
    ∃ later, next.frames[index]? = some (some later) ∧ knownSlots later < knownSlots known := by
  rcases step_ok stepped with ⟨-, nothing⟩ | ⟨_, rest, _, popped, visited, same⟩
  · cases nothing
  cases same
  rw [popped, List.tail_cons] at notWaiting
  exact visit_requeues visited index known found pending notWaiting

/-- Along any number of steps, a frame only widens. -/
theorem steps_widen : ∀ (count : Nat) {state reached : Verification},
    steps graph returnType count state = .ok (some reached) →
      ∀ (index : Nat) (known : Frame), state.frames[index]? = some (some known) →
        ∃ later, reached.frames[index]? = some (some later) ∧ later.Widens known
  | 0, _, _, reached, index, known, found => by
    cases reached
    exact ⟨known, found, Frame.Widens.refl known⟩
  | count + 1, _, _, reached, index, known, found => by
    rw [steps] at reached
    obtain ⟨stepResult, stepped, continued⟩ := bind_eq_ok reached
    cases stepResult with
    | none => cases continued
    | some next =>
      obtain ⟨middle, middleFound, widens⟩ := step_widens stepped index known found
      obtain ⟨later, laterFound, widensAgain⟩ :=
        steps_widen count continued index middle middleFound
      exact ⟨later, laterFound, widensAgain.trans widens⟩

/-- From any state, the worklist empties or stops on an error after finitely many steps. -/
theorem steps_end (state : Verification) :
    ∃ count, steps graph returnType count state = .ok none ∨
      ∃ stop, steps graph returnType count state = .error stop := by
  induction state using Verification.run.induct graph returnType with
  | case1 state stop stepped =>
    refine ⟨1, .inr ⟨stop, ?_⟩⟩
    rw [steps, stepped]
    rfl
  | case2 state stepped =>
    refine ⟨1, .inl ?_⟩
    rw [steps, stepped]
    rfl
  | case3 state next stepped continues =>
    obtain ⟨count, ended⟩ := continues
    refine ⟨count + 1, ?_⟩
    rw [steps, stepped]
    exact ended

end Steps

/-- A frame flowing into a position whose frame has another stack height is an error. -/
theorem flowInto_height_error {state : Verification} {target : Nat} {known frame : Frame}
    (found : state.frames[target]? = some (some known))
    (differs : known.stack.length ≠ frame.stack.length) :
    state.flowInto target frame =
      .error (.incompatibleStackHeights known.stack.length frame.stack.length) := by
  unfold flowInto Frame.merge
  rw [found]
  dsimp only
  rw [if_pos (bne_iff_ne.mpr differs)]
  rfl

/-- **The verifier's worklist ends.** A frame never flows into a position whose frame has
another stack height without an error; a step keeps every frame's stack height and number of
locals, and queues a position again only after a merge turned one of its known slots into
`top`; and from any state the worklist empties, or stops on an error, after finitely many
steps. -/
theorem worklist_terminates (graph : FlowGraph) (returnType : Option FieldType) :
    (∀ (state : Verification) (target : Nat) (known frame : Frame),
      state.frames[target]? = some (some known) → known.stack.length ≠ frame.stack.length →
        state.flowInto target frame =
          .error (.incompatibleStackHeights known.stack.length frame.stack.length)) ∧
    (∀ state next, step graph returnType state = .ok (some next) →
      ∀ (index : Nat) (known : Frame), state.frames[index]? = some (some known) →
        ∃ later, next.frames[index]? = some (some later) ∧
          later.stack.length = known.stack.length ∧ later.locals.size = known.locals.size ∧
          (index ∈ next.pending → index ∉ state.pending.tail →
            knownSlots later < knownSlots known)) ∧
    (∀ (count : Nat) (state reached : Verification),
      steps graph returnType count state = .ok (some reached) →
        ∀ (index : Nat) (known : Frame), state.frames[index]? = some (some known) →
          ∃ later, reached.frames[index]? = some (some later) ∧
            later.stack.length = known.stack.length ∧ later.locals.size = known.locals.size) ∧
    ∀ state, ∃ count, steps graph returnType count state = .ok none ∨
      ∃ stop, steps graph returnType count state = .error stop := by
  refine ⟨fun _ _ _ _ found differs => flowInto_height_error found differs, ?_, ?_, steps_end⟩
  · intro state next stepped index known found
    obtain ⟨later, laterFound, widens⟩ := step_widens stepped index known found
    refine ⟨later, laterFound, widens.covers.height, widens.size, fun pending notWaiting => ?_⟩
    obtain ⟨lower, lowerFound, fewer⟩ :=
      step_requeues stepped index known found pending notWaiting
    rw [laterFound] at lowerFound
    cases lowerFound
    exact fewer
  · intro count state reached ran index known found
    obtain ⟨later, laterFound, widens⟩ := steps_widen count ran index known found
    exact ⟨later, laterFound, widens.covers.height, widens.size⟩

end Verification

end ClassKit
