import ClassKit.Verifier.Frame
import ClassKit.Code.Flow

/-!
# The verifier's worklist

A method body is verified by abstract interpretation: starting from the entry frame at the first
entry, each entry's frame is run through its transfer rule and flows into the entries that may
follow it (the next entry, branch targets, and the handlers covering it). Frames that meet
merge; a position whose frame changed is looked at again. Positions are taken most recent
first.

Looking at a position either leaves the frames as they are, or reaches a position for the first
time, or turns some slot of a frame into `top`; so the number of unreached positions, then the
number of slots that are not `top`, then the number of pending positions, falls with every
position looked at, and the loop ends.
-/

namespace ClassKit

/-- The state of verification: the frame reached at each position, and the positions still to
look at (most recent first). -/
structure Verification where
  frames : Array (Option Frame)
  pending : List Nat

/-- Why verification stopped: a fault at a position, or a label that is never placed. -/
inductive VerifyStop where
  | fault (index : Nat) (fault : VerifierFault)
  | graph (err : ClassError)

namespace VerifyStop

/-- A fault of the entry at a position. -/
def faultAt {α : Type} (index : Nat) (result : Except VerifierFault α) : Except VerifyStop α :=
  result.mapError (fault index)

theorem faultAt_eq_ok {α : Type} {index : Nat} {result : Except VerifierFault α} {value : α} :
    faultAt index result = .ok value ↔ result = .ok value := by
  constructor
  · intro stopped
    cases result with
    | error _ => cases stopped
    | ok _ => cases stopped; rfl
  · intro found
    rw [found]
    rfl

end VerifyStop

namespace FlowGraph

/-- The frames that enter the handlers covering a position. -/
def handlerFlows (graph : FlowGraph) (index : Nat) (frame : Frame) : List (Nat × Frame) :=
  (graph.covering index).map (·, frame.forHandler)

/-- The frames an entry passes on through its transfer rule, in a method with the given return
type: to the next entry, and to the targets of a branch, a `jsr` target receiving the return
address. `ret` passes nothing on. -/
def successors (graph : FlowGraph) (returnType : Option FieldType) (index : Nat) (frame : Frame) :
    Except VerifyStop (List (Nat × Frame)) :=
  match graph.entries[index]? with
  | some (.label _) => .ok [(index + 1, frame)]
  | some (.instruction instruction) => do
    let after ← VerifyStop.faultAt index ((Transfer.instruction instruction).run frame |>.map (·.2))
    match instruction with
    | .ret _ => pure []
    | _ => pure [(index + 1, after)]
  | some (.branch branch) => do
    let after ← VerifyStop.faultAt index ((Transfer.branch returnType branch).run frame |>.map (·.2))
    let intoTarget := match branch with
      | .jsr _ => { after with stack := .returnAddress :: after.stack }
      | _ => after
    let targets ← (graph.branchTargets branch).mapError VerifyStop.graph
    pure (targets.map (·, intoTarget) ++ if branch.fallsThrough then [(index + 1, after)] else [])
  | none => .ok []

end FlowGraph

namespace Verification

/-- Lets a frame flow into a position: it becomes the frame there, or merges with the frame
already there; the position is looked at again if its frame changed. -/
def flowInto (state : Verification) (target : Nat) (frame : Frame) :
    Except VerifierFault Verification := do
  match state.frames[target]? with
  | none => throw .fallsOffEnd
  | some existing =>
    let (merged, changed) ← match existing with
      | some known => known.merge frame
      | none => pure (frame, true)
    let frames := state.frames.set! target (some merged)
    let pending := if changed && !state.pending.contains target then target :: state.pending
      else state.pending
    pure { frames, pending }

/-- Lets frames flow into positions in order. -/
def flowIntoAll (state : Verification) (flows : List (Nat × Frame)) :
    Except VerifierFault Verification :=
  flows.foldlM (fun state flow => state.flowInto flow.1 flow.2) state

/-- Looks at a position: its frame flows into the handlers covering it, then through its
transfer rule into the entries that may follow it. -/
def visit (graph : FlowGraph) (returnType : Option FieldType) (index : Nat) (state : Verification) :
    Except VerifyStop Verification :=
  match state.frames[index]?.join with
  | none => .ok state
  | some frame => do
    let state ← VerifyStop.faultAt index (state.flowIntoAll (graph.handlerFlows index frame))
    let flows ← graph.successors returnType index frame
    VerifyStop.faultAt index (state.flowIntoAll flows)

/-- Looks at the most recent pending position; `none` once no position is pending. -/
def step (graph : FlowGraph) (returnType : Option FieldType) (state : Verification) :
    Except VerifyStop (Option Verification) :=
  match state.pending with
  | [] => .ok none
  | index :: rest => some <$> visit graph returnType index { state with pending := rest }

/-! ## Termination -/

/-- The sum of a weight over a list of frames. -/
def weigh (weight : Option Frame → Nat) : List (Option Frame) → Nat
  | [] => 0
  | frame :: rest => weight frame + weigh weight rest

/-- Slots of a frame that are not `top`. -/
def knownSlots (frame : Frame) : Nat :=
  (frame.locals.toList ++ frame.stack).countP (· != .top)

/-- Positions not reached yet, slots not yet `top`, and positions pending: each visit lowers
these in this order. -/
def measure (state : Verification) : Nat × Nat × Nat :=
  (weigh (fun frame => if frame.isNone then 1 else 0) state.frames.toList,
    weigh (fun frame => (frame.map knownSlots).getD 0) state.frames.toList,
    state.pending.length)

theorem weigh_set (weight : Option Frame → Nat) :
    ∀ (frames : List (Option Frame)) (index : Nat) (frame : Option Frame)
      (inside : index < frames.length),
      weigh weight (frames.set index frame) + weight frames[index] =
        weigh weight frames + weight frame
  | [], _, _, inside => absurd inside (Nat.not_lt_zero _)
  | first :: rest, 0, frame, _ => by
    simp only [List.set_cons_zero, weigh, List.getElem_cons_zero]
    omega
  | first :: rest, index + 1, frame, inside => by
    have restSet := weigh_set weight rest index frame (Nat.lt_of_succ_lt_succ inside)
    simp only [List.set_cons_succ, weigh, List.getElem_cons_succ]
    omega

/-- Merging slots only turns slots into `top`: a change loses a known slot, and no change keeps
the slots as they were. -/
theorem mergeSlots_settles (mine theirs : List VerificationType) :
    (Frame.mergeSlots mine theirs).1.countP (· != .top) +
        (if (Frame.mergeSlots mine theirs).2 then 1 else 0) ≤ mine.countP (· != .top) ∧
      ((Frame.mergeSlots mine theirs).2 = false → (Frame.mergeSlots mine theirs).1 = mine) := by
  fun_induction Frame.mergeSlots mine theirs with
  | case1 mine rest theirs others merged changed split slot restFacts =>
    simp only [split] at restFacts
    obtain ⟨restCount, restSame⟩ := restFacts
    -- the first slot stays, or a known slot becomes `top`
    have head : slot = mine ∨ (slot = .top ∧ mine ≠ .top) := by
      simp only [slot, VerificationType.merge]
      split
      · exact .inl rfl
      · by_cases unknown : mine = .top
        · exact .inl unknown.symm
        · exact .inr ⟨rfl, unknown⟩
    rcases head with stays | ⟨lost, known⟩
    · simp only [stays, bne_self_eq_false, Bool.or_false, List.countP_cons]
      exact ⟨by omega, fun unchanged => by rw [restSame unchanged]⟩
    · have wasKnown : (mine != .top) = true := bne_iff_ne.mpr known
      have nowTop : (VerificationType.top != mine) = true := bne_iff_ne.mpr (Ne.symm known)
      simp only [lost, nowTop, wasKnown, Bool.or_true, List.countP_cons, bne_self_eq_false,
        if_true, Bool.false_eq_true, if_false]
      exact ⟨by split at restCount <;> omega, fun never => Bool.noConfusion never⟩
  | case2 mine theirs notBoth =>
    simp

theorem merge_settles {frame incoming merged : Frame} {changed : Bool}
    (merging : frame.merge incoming = .ok (merged, changed)) :
    knownSlots merged + (if changed then 1 else 0) ≤ knownSlots frame ∧
      (changed = false → merged = frame) := by
  unfold Frame.merge at merging
  split at merging
  · cases merging
  · obtain ⟨stackCount, stackSame⟩ := mergeSlots_settles frame.stack incoming.stack
    obtain ⟨localsCount, localsSame⟩ := mergeSlots_settles frame.locals.toList incoming.locals.toList
    revert merging stackCount stackSame localsCount localsSame
    cases Frame.mergeSlots frame.stack incoming.stack with
    | mk stack stackChanged =>
    cases Frame.mergeSlots frame.locals.toList incoming.locals.toList with
    | mk locals localsChanged =>
    intro merging stackCount stackSame localsCount localsSame
    dsimp only at stackCount stackSame localsCount localsSame
    simp only [Except.ok.injEq, Prod.mk.injEq] at merging
    obtain ⟨rfl, rfl⟩ := merging
    simp only [knownSlots, List.countP_append]
    -- a merge that changes both parts still counts as one change
    have atMostBoth : (if (stackChanged || localsChanged) = true then 1 else 0) ≤
        (if stackChanged = true then 1 else 0) + (if localsChanged = true then 1 else 0) := by
      cases stackChanged <;> cases localsChanged <;> decide
    refine ⟨by omega, ?_⟩
    intro unchanged
    simp only [Bool.or_eq_false_iff] at unchanged
    rw [stackSame unchanged.1, localsSame unchanged.2]

theorem flowInto_ok {state next : Verification} {target : Nat} {frame : Frame}
    (flowed : state.flowInto target frame = .ok next) :
    ∃ existing, state.frames[target]? = some existing ∧ ∃ merged changed,
      (match existing with
        | some known => known.merge frame
        | none => .ok (frame, true)) = .ok (merged, changed) ∧
      next = { frames := state.frames.set! target (some merged),
               pending := if changed && !state.pending.contains target then target :: state.pending
                 else state.pending } := by
  unfold flowInto at flowed
  cases found : state.frames[target]? with
  | none =>
    rw [found] at flowed
    cases flowed
  | some existing =>
    rw [found] at flowed
    dsimp only at flowed
    refine ⟨existing, rfl, ?_⟩
    cases existing with
    | none =>
      cases flowed
      exact ⟨frame, true, rfl, rfl⟩
    | some known =>
      dsimp only at flowed
      cases merging : known.merge frame with
      | error err =>
        rw [merging] at flowed
        cases flowed
      | ok result =>
        obtain ⟨merged, changed⟩ := result
        rw [merging] at flowed
        cases flowed
        exact ⟨merged, changed, merging, rfl⟩

theorem flowIntoAll_cons_ok {state next : Verification} {flow : Nat × Frame}
    {flows : List (Nat × Frame)} (flowed : state.flowIntoAll (flow :: flows) = .ok next) :
    ∃ middle, state.flowInto flow.1 flow.2 = .ok middle ∧ middle.flowIntoAll flows = .ok next := by
  simp only [flowIntoAll, List.foldlM_cons] at flowed
  exact bind_eq_ok flowed

/-- What a successful visit does: nothing at a position without a frame; otherwise the frame
flows into the covering handlers and then, through the transfer rule, to the successors. -/
theorem visit_ok {graph : FlowGraph} {returnType : Option FieldType} {index : Nat}
    {state next : Verification} (visited : visit graph returnType index state = .ok next) :
    (state.frames[index]?.join = none ∧ next = state) ∨
      ∃ frame handled flows, state.frames[index]?.join = some frame ∧
        state.flowIntoAll (graph.handlerFlows index frame) = .ok handled ∧
        graph.successors returnType index frame = .ok flows ∧
        handled.flowIntoAll flows = .ok next := by
  unfold visit at visited
  split at visited
  · rename_i unreached
    cases visited
    exact .inl ⟨unreached, rfl⟩
  · rename_i frame reached
    obtain ⟨handled, handlersFlowed, visited⟩ := bind_eq_ok visited
    obtain ⟨flows, successorsFound, visited⟩ := bind_eq_ok visited
    rw [VerifyStop.faultAt_eq_ok] at handlersFlowed visited
    exact .inr ⟨frame, handled, flows, reached, handlersFlowed, successorsFound, visited⟩

theorem step_ok {graph : FlowGraph} {returnType : Option FieldType} {state : Verification}
    {result : Option Verification} (stepped : step graph returnType state = .ok result) :
    (state.pending = [] ∧ result = none) ∨
      ∃ index rest next, state.pending = index :: rest ∧
        visit graph returnType index { state with pending := rest } = .ok next ∧
        result = some next := by
  unfold step at stepped
  split at stepped
  · rename_i empty
    cases stepped
    exact .inl ⟨empty, rfl⟩
  · rename_i index rest popped
    obtain ⟨next, visited, stepped⟩ := bind_eq_ok stepped
    cases stepped
    exact .inr ⟨index, rest, next, popped, visited, rfl⟩

/-- `after` is `before`, or has fewer positions unreached, or as many and fewer known slots. -/
def Settles (before after : Verification) : Prop :=
  after = before ∨ after.measure.1 < before.measure.1 ∨
    (after.measure.1 = before.measure.1 ∧ after.measure.2.1 < before.measure.2.1)

theorem Settles.refl (state : Verification) : Settles state state := .inl rfl

theorem Settles.trans {first second third : Verification} (settles : Settles first second)
    (settlesAgain : Settles second third) : Settles first third := by
  rcases settles with rfl | lower
  · exact settlesAgain
  · rcases settlesAgain with rfl | lowerAgain
    · exact .inr lower
    · right
      omega

theorem toList_set! (frames : Array (Option Frame)) (index : Nat) (frame : Option Frame) :
    (frames.set! index frame).toList = frames.toList.set index frame := by
  rw [Array.set!_eq_setIfInBounds, Array.toList_setIfInBounds]

/-- A flow leaves the state as it was, reaches a new position, or turns a known slot into `top`. -/
theorem flowInto_settles {state next : Verification} {target : Nat} {frame : Frame}
    (flowed : state.flowInto target frame = .ok next) : Settles state next := by
  obtain ⟨existing, found, merged, changed, merging, rfl⟩ := flowInto_ok flowed
  rw [← Array.getElem?_toList] at found
  obtain ⟨inside, atTarget⟩ := List.getElem_of_getElem? found
  have unreached := weigh_set (fun frame => if frame.isNone then 1 else 0) _ _ (some merged) inside
  have known := weigh_set (fun frame => (frame.map knownSlots).getD 0) _ _ (some merged) inside
  simp only [atTarget] at unreached known
  simp only [Settles, measure, toList_set!]
  cases existing with
  | none =>
    -- a position reached for the first time
    right; left
    simp only [Option.isNone_none, if_true, Option.isNone_some, Bool.false_eq_true, if_false]
      at unreached
    omega
  | some known' =>
    obtain ⟨fewer, same⟩ := merge_settles merging
    simp only [Option.isNone_some, Bool.false_eq_true, if_false, Option.map_some,
      Option.getD_some] at unreached known
    cases changed with
    | false =>
      -- nothing changed: the same frames, the same pending positions
      left
      have unchangedFrames : state.frames.set! target (some merged) = state.frames := by
        apply Array.ext'
        rw [toList_set!, same rfl, ← atTarget, List.set_getElem_self]
      simp only [unchangedFrames, Bool.false_and, Bool.false_eq_true, if_false]
    | true =>
      right; right
      simp only [if_true] at fewer
      omega

theorem flowIntoAll_settles :
    ∀ {state next : Verification} {flows : List (Nat × Frame)},
      state.flowIntoAll flows = .ok next → Settles state next
  | state, next, [], flowed => by
    cases flowed
    exact Settles.refl state
  | _, _, _ :: _, flowed => by
    obtain ⟨middle, first, rest⟩ := flowIntoAll_cons_ok flowed
    exact (flowInto_settles first).trans (flowIntoAll_settles rest)

theorem visit_settles {graph : FlowGraph} {returnType : Option FieldType} {index : Nat}
    {state next : Verification} (visited : visit graph returnType index state = .ok next) :
    Settles state next := by
  rcases visit_ok visited with ⟨-, rfl⟩ | ⟨_, _, _, -, handlersFlowed, -, successorsFlowed⟩
  · exact Settles.refl _
  · exact (flowIntoAll_settles handlersFlowed).trans (flowIntoAll_settles successorsFlowed)

/-- Every step lowers the measure: it pops a position and settles the rest. -/
theorem step_decreases {graph : FlowGraph} {returnType : Option FieldType}
    {state next : Verification} (stepped : step graph returnType state = .ok (some next)) :
    Prod.Lex (· < ·) (Prod.Lex (· < ·) (· < ·)) next.measure state.measure := by
  rcases step_ok stepped with ⟨-, nothing⟩ | ⟨index, rest, visitedState, popped, visited, same⟩
  · cases nothing
  cases same
  -- the popped state has the frames of `state` and one pending position fewer
  rcases visit_settles visited with rfl | fewer | ⟨same, fewer⟩
  · refine Prod.Lex.right _ (Prod.Lex.right _ ?_)
    simp [popped]
  · exact Prod.Lex.left _ _ fewer
  · unfold measure at same fewer ⊢
    dsimp only at same fewer
    rw [same]
    exact Prod.Lex.right _ (Prod.Lex.left _ _ fewer)

/-- Looks at pending positions until none is left. -/
def run (graph : FlowGraph) (returnType : Option FieldType) (state : Verification) :
    Except VerifyStop Unit :=
  match stepped : step graph returnType state with
  | .error stop => .error stop
  | .ok none => .ok ()
  | .ok (some next) => run graph returnType next
termination_by state.measure
decreasing_by exact step_decreases stepped

end Verification

end ClassKit
