import ClassKit.Verifier.Method
import ClassKit.Proofs.Outcome

/-!
# What an accepted method satisfies

The verifier does not type each path through a body on its own: where paths meet, their frames
merge, and a slot whose types differ becomes `top`. What it establishes instead is a
post-fixpoint. When a method is accepted there are frames for the positions of its body such
that the frame at the first position covers the entry frame, and every position with a frame
is *stable*: its transfer rule succeeds, and every frame it passes on, to the next entry, to a
branch target or to a covering handler, is covered by the frame where it arrives
(`Method.verify_accepts_typed`). Following control from the first position (falling through,
jumping, entering handlers, entering a subroutine and continuing after its `jsr`) therefore
reaches only positions inside the body that have such a frame.

A frame *covers* another when merging the second into the first changes nothing: the same
stack height, and at each slot the same type or `top`. The proof is the usual worklist
argument: frames only grow by merges, a position whose frame changes is pending again, and a
position that is not pending is stable (`Verification.Invariant`).
-/

namespace ClassKit

/-! ## Covering frames -/

namespace VerificationType

/-- At a join, `known` stands for `incoming`: it is the same type, or `top`. -/
def Covers (known incoming : VerificationType) : Prop := known = incoming ∨ known = .top

theorem Covers.refl (type : VerificationType) : type.Covers type := .inl rfl

theorem Covers.trans {first second third : VerificationType} (covers : first.Covers second)
    (coversAgain : second.Covers third) : first.Covers third := by
  rcases covers with rfl | top
  · exact coversAgain
  · exact .inr top

theorem merge_covers_left (mine theirs : VerificationType) : (mine.merge theirs).Covers mine := by
  unfold merge
  split
  · exact .inl rfl
  · exact .inr rfl

theorem merge_covers_right (mine theirs : VerificationType) :
    (mine.merge theirs).Covers theirs := by
  unfold merge
  split
  · rename_i same
    exact .inl same
  · exact .inr rfl

end VerificationType

/-- Each slot of `mine` stands for the slot of `theirs` at the same place. -/
def SlotsCover (mine theirs : List VerificationType) : Prop :=
  ∀ (index : Nat) (known incoming : VerificationType), mine[index]? = some known →
    theirs[index]? = some incoming → known.Covers incoming

namespace SlotsCover

theorem refl (slots : List VerificationType) : SlotsCover slots slots := by
  intro index known incoming found found'
  rw [found] at found'
  cases found'
  exact VerificationType.Covers.refl known

/-- Covering passes through a middle list that has a slot wherever both ends have one. -/
theorem trans {first second third : List VerificationType} (covers : SlotsCover first second)
    (coversAgain : SlotsCover second third)
    (middle : first.length ≤ second.length ∨ third.length ≤ second.length) :
    SlotsCover first third := by
  intro index known incoming found found'
  have inside : index < second.length := by
    have below := (List.getElem?_eq_some_iff.mp found).1
    have below' := (List.getElem?_eq_some_iff.mp found').1
    omega
  exact (covers index known _ found (List.getElem?_eq_getElem inside)).trans
    (coversAgain index _ incoming (List.getElem?_eq_getElem inside) found')

end SlotsCover

namespace Frame

theorem mergeSlots_length :
    ∀ mine theirs : List VerificationType, (mergeSlots mine theirs).1.length = mine.length
  | _ :: rest, _ :: others => by
    simp only [mergeSlots, List.length_cons, mergeSlots_length rest others]
  | [], _ => rfl
  | _ :: _, [] => rfl

theorem mergeSlots_covers_left :
    ∀ mine theirs : List VerificationType, SlotsCover (mergeSlots mine theirs).1 mine
  | slot :: rest, other :: others => by
    rintro (_ | index) known incoming found found'
    · simp only [mergeSlots, List.getElem?_cons_zero, Option.some.injEq] at found found'
      rw [← found, ← found']
      exact VerificationType.merge_covers_left slot other
    · simp only [mergeSlots, List.getElem?_cons_succ] at found found'
      exact mergeSlots_covers_left rest others index known incoming found found'
  | [], _ => SlotsCover.refl []
  | _ :: _, [] => SlotsCover.refl _

theorem mergeSlots_covers_right :
    ∀ mine theirs : List VerificationType, SlotsCover (mergeSlots mine theirs).1 theirs
  | slot :: rest, other :: others => by
    rintro (_ | index) known incoming found found'
    · simp only [mergeSlots, List.getElem?_cons_zero, Option.some.injEq] at found found'
      rw [← found, ← found']
      exact VerificationType.merge_covers_right slot other
    · simp only [mergeSlots, List.getElem?_cons_succ] at found found'
      exact mergeSlots_covers_right rest others index known incoming found found'
  | [], _ => fun _ _ _ found => by cases found
  | _ :: _, [] => fun _ _ _ _ found' => by cases found'

/-- `known` absorbs `incoming`: the same stack height, and each slot the same type or `top`.
Merging `incoming` into `known` then changes nothing. -/
structure Covers (known incoming : Frame) : Prop where
  height : known.stack.length = incoming.stack.length
  stack : SlotsCover known.stack incoming.stack
  locals : SlotsCover known.locals.toList incoming.locals.toList

/-- `later` grew from `earlier` by merges: as many locals, and it covers `earlier`. -/
structure Widens (later earlier : Frame) : Prop where
  size : later.locals.size = earlier.locals.size
  covers : later.Covers earlier

theorem Covers.refl (frame : Frame) : frame.Covers frame :=
  ⟨rfl, SlotsCover.refl _, SlotsCover.refl _⟩

theorem Widens.refl (frame : Frame) : frame.Widens frame := ⟨rfl, Covers.refl frame⟩

theorem Widens.covers_of {later known incoming : Frame} (widens : later.Widens known)
    (covers : known.Covers incoming) : later.Covers incoming where
  height := widens.covers.height.trans covers.height
  stack := widens.covers.stack.trans covers.stack (.inr (Nat.le_of_eq covers.height.symm))
  locals := widens.covers.locals.trans covers.locals
    (.inl (by simp only [Array.length_toList, widens.size, Nat.le_refl]))

theorem Widens.trans {first second third : Frame} (widens : first.Widens second)
    (widensAgain : second.Widens third) : first.Widens third :=
  ⟨widens.size.trans widensAgain.size, widens.covers_of widensAgain.covers⟩

/-- A merge grows the frame merged into and covers the frame merged in. -/
theorem merge_widens {frame incoming merged : Frame} {changed : Bool}
    (merging : frame.merge incoming = .ok (merged, changed)) :
    merged.Widens frame ∧ merged.Covers incoming := by
  unfold merge at merging
  split at merging
  · cases merging
  · rename_i sameHeight
    simp only [Except.ok.injEq, Prod.mk.injEq] at merging
    obtain ⟨rfl, -⟩ := merging
    have height : frame.stack.length = incoming.stack.length := by
      simpa using sameHeight
    refine ⟨⟨?_, ?_, ?_, ?_⟩, ⟨?_, ?_, ?_⟩⟩
    · simp [mergeSlots_length]
    · simp [mergeSlots_length]
    · exact mergeSlots_covers_left _ _
    · simpa using mergeSlots_covers_left _ _
    · simp [mergeSlots_length, height]
    · exact mergeSlots_covers_right _ _
    · simpa using mergeSlots_covers_right _ _

end Frame

/-! ## The worklist keeps its invariant -/

namespace Verification

/-- The frame at the target of `flow` covers the frame that flows there. -/
def Receives (frames : Array (Option Frame)) (flow : Nat × Frame) : Prop :=
  ∃ known, frames[flow.1]? = some (some known) ∧ known.Covers flow.2

/-- A position is stable with `frame` when its transfer rule succeeds and every frame it passes
on, to the handlers covering it and to the entries that may follow it, is covered where it
arrives. -/
def Stable (graph : FlowGraph) (returnType : Option FieldType) (frames : Array (Option Frame))
    (index : Nat) (frame : Frame) : Prop :=
  (∀ flow ∈ graph.handlerFlows index frame, Receives frames flow) ∧
    ∃ flows, graph.successors returnType index frame = .ok flows ∧
      ∀ flow ∈ flows, Receives frames flow

/-- `after` grew from `before` by flows: frames only widen, and a position whose frame is new
or changed is pending. -/
structure Grows (before after : Verification) : Prop where
  size : after.frames.size = before.frames.size
  pending : ∀ index ∈ before.pending, index ∈ after.pending
  widens : ∀ (index : Nat) (known : Frame), before.frames[index]? = some (some known) →
    ∃ later : Frame, after.frames[index]? = some (some later) ∧ later.Widens known
  settled : ∀ (index : Nat) (later : Frame), after.frames[index]? = some (some later) →
    index ∈ after.pending ∨ before.frames[index]? = some (some later)

namespace Grows

theorem refl (state : Verification) : Grows state state where
  size := rfl
  pending _ member := member
  widens _ known found := ⟨known, found, Frame.Widens.refl known⟩
  settled _ _ found := .inr found

theorem trans {first second third : Verification} (grows : Grows first second)
    (growsAgain : Grows second third) : Grows first third where
  size := growsAgain.size.trans grows.size
  pending index member := growsAgain.pending index (grows.pending index member)
  widens index known found := by
    obtain ⟨middle, middleFound, widens⟩ := grows.widens index known found
    obtain ⟨later, laterFound, widensAgain⟩ := growsAgain.widens index middle middleFound
    exact ⟨later, laterFound, widensAgain.trans widens⟩
  settled index later found := by
    rcases growsAgain.settled index later found with pending | middleFound
    · exact .inl pending
    · rcases grows.settled index later middleFound with pending | firstFound
      · exact .inl (growsAgain.pending index pending)
      · exact .inr firstFound

theorem receives {before after : Verification} (grows : Grows before after)
    {flow : Nat × Frame} (received : Receives before.frames flow) :
    Receives after.frames flow := by
  obtain ⟨known, found, covers⟩ := received
  obtain ⟨later, laterFound, widens⟩ := grows.widens flow.1 known found
  exact ⟨later, laterFound, widens.covers_of covers⟩

theorem stable {before after : Verification} (grows : Grows before after)
    {graph : FlowGraph} {returnType : Option FieldType} {index : Nat} {frame : Frame}
    (settled : Stable graph returnType before.frames index frame) :
    Stable graph returnType after.frames index frame := by
  obtain ⟨handled, flows, found, received⟩ := settled
  exact ⟨fun flow member => grows.receives (handled flow member), flows, found,
    fun flow member => grows.receives (received flow member)⟩

end Grows

/-- A flow widens the frames, and the frame at its target covers what flowed in. -/
theorem flowInto_grows {state next : Verification} {target : Nat} {frame : Frame}
    (flowed : state.flowInto target frame = .ok next) :
    Grows state next ∧ Receives next.frames (target, frame) := by
  obtain ⟨existing, found, merged, changed, merging, rfl⟩ := flowInto_ok flowed
  have inside : target < state.frames.size := (Array.getElem?_eq_some_iff.mp found).1
  have atIndex : ∀ index, (state.frames.set! target (some merged))[index]? =
      if target = index then some (some merged) else state.frames[index]? := by
    intro index
    rw [Array.set!_eq_setIfInBounds, Array.getElem?_setIfInBounds, if_pos inside]
  -- the target is pending again whenever its frame changed
  have pendingIfChanged : changed = true → target ∈
      (if changed && !state.pending.contains target then target :: state.pending
        else state.pending) := by
    intro isChanged
    by_cases present : target ∈ state.pending
    · split
      · exact List.mem_cons_of_mem target present
      · exact present
    · rw [if_pos (by simp [isChanged, present])]
      exact List.mem_cons_self
  -- what the target holds after the merge, against what it held before
  have mergedCovers : merged.Covers frame ∧ ∀ known, existing = some known →
      merged.Widens known ∧ (changed = false → merged = known) := by
    cases existing with
    | none =>
      cases merging
      exact ⟨Frame.Covers.refl _, fun _ none => by cases none⟩
    | some known =>
      obtain ⟨widens, covers⟩ := Frame.merge_widens merging
      refine ⟨covers, fun other same => ?_⟩
      cases same
      exact ⟨widens, (merge_settles merging).2⟩
  refine ⟨⟨?_, ?_, ?_, ?_⟩, merged, by rw [atIndex, if_pos rfl], mergedCovers.1⟩
  · simp [Array.set!_eq_setIfInBounds]
  · intro index member
    dsimp only
    split
    · exact List.mem_cons_of_mem target member
    · exact member
  · intro index known knownFound
    by_cases atTarget : target = index
    · subst atTarget
      rw [found] at knownFound
      cases knownFound
      exact ⟨merged, by rw [atIndex, if_pos rfl], (mergedCovers.2 known rfl).1⟩
    · exact ⟨known, by rw [atIndex, if_neg atTarget, knownFound], Frame.Widens.refl known⟩
  · intro index later laterFound
    simp only [atIndex] at laterFound
    split at laterFound
    · rename_i atTarget
      subst atTarget
      cases laterFound
      cases changed with
      | true => exact .inl (pendingIfChanged rfl)
      | false =>
        right
        cases existing with
        | none => cases merging
        | some known =>
          rw [found, (mergedCovers.2 known rfl).2 rfl]
    · exact .inr laterFound

theorem flowIntoAll_grows :
    ∀ {state next : Verification} {flows : List (Nat × Frame)},
      state.flowIntoAll flows = .ok next →
        Grows state next ∧ ∀ flow ∈ flows, Receives next.frames flow
  | state, next, [], flowed => by
    cases flowed
    exact ⟨Grows.refl state, fun _ member => by cases member⟩
  | _, _, _ :: _, flowed => by
    obtain ⟨middle, first, rest⟩ := flowIntoAll_cons_ok flowed
    obtain ⟨grows, received⟩ := flowInto_grows first
    obtain ⟨growsAgain, receivedAgain⟩ := flowIntoAll_grows rest
    refine ⟨grows.trans growsAgain, fun other member => ?_⟩
    rcases List.mem_cons.mp member with rfl | later
    · exact growsAgain.receives received
    · exact receivedAgain other later

/-- Looking at a position widens the frames and leaves the position stable with the frame it
was looked at with. -/
theorem visit_grows {graph : FlowGraph} {returnType : Option FieldType} {index : Nat}
    {state next : Verification} (visited : visit graph returnType index state = .ok next) :
    Grows state next ∧ ∀ frame, state.frames[index]?.join = some frame →
      Stable graph returnType next.frames index frame := by
  rcases visit_ok visited with ⟨unreached, rfl⟩ |
      ⟨frame, handled, flows, reached, handlersFlowed, successorsFound, successorsFlowed⟩
  · refine ⟨Grows.refl _, fun frame reached => ?_⟩
    rw [unreached] at reached
    cases reached
  · obtain ⟨grows, intoHandlers⟩ := flowIntoAll_grows handlersFlowed
    obtain ⟨growsAgain, intoSuccessors⟩ := flowIntoAll_grows successorsFlowed
    refine ⟨grows.trans growsAgain, fun other reachedAgain => ?_⟩
    rw [reached] at reachedAgain
    cases reachedAgain
    exact ⟨fun flow member => growsAgain.receives (intoHandlers flow member), flows,
      successorsFound, intoSuccessors⟩

/-- What holds of the worklist from the first flow on: the frames fit the body, the first
position has a frame covering the entry frame, and every position that has a frame and is not
pending is stable. -/
structure Invariant (graph : FlowGraph) (returnType : Option FieldType) (entry : Frame)
    (state : Verification) : Prop where
  size : state.frames.size = graph.size
  start : ∃ first, state.frames[0]? = some (some first) ∧ first.Covers entry
  stable : ∀ (index : Nat) (frame : Frame), state.frames[index]? = some (some frame) →
    index ∉ state.pending → Stable graph returnType state.frames index frame

section Run

variable {graph : FlowGraph} {returnType : Option FieldType} {entry : Frame}

theorem Invariant.initial {state : Verification}
    (started : (⟨Array.replicate graph.size none, []⟩ : Verification).flowInto 0 entry =
      .ok state) :
    Invariant graph returnType entry state := by
  obtain ⟨grows, received⟩ := flowInto_grows started
  refine ⟨by simpa using grows.size, received, fun index frame found notPending => ?_⟩
  -- every frame is new, so every position with a frame is pending
  rcases grows.settled index frame found with pending | before
  · exact absurd pending notPending
  · simp only [Array.getElem?_replicate] at before
    split at before <;> simp at before

theorem Invariant.step {state next : Verification}
    (holds : Invariant graph returnType entry state)
    (stepped : step graph returnType state = .ok (some next)) :
    Invariant graph returnType entry next := by
  rcases step_ok stepped with ⟨-, nothing⟩ | ⟨index, rest, after, popped, visited, same⟩
  · cases nothing
  cases same
  obtain ⟨grows, settled⟩ := visit_grows visited
  refine ⟨grows.size.trans holds.size, ?_, ?_⟩
  · obtain ⟨first, firstFound, covers⟩ := holds.start
    obtain ⟨later, laterFound, widens⟩ := grows.widens 0 first firstFound
    exact ⟨later, laterFound, widens.covers_of covers⟩
  · intro other frame found notPending
    -- a frame that is not pending is the one the position had before the visit
    rcases grows.settled other frame found with pending | before
    · exact absurd pending notPending
    · by_cases looked : other = index
      · subst looked
        exact settled frame (by simp only at before; rw [before]; rfl)
      · have wasNotPending : other ∉ state.pending := by
          rw [popped]
          rintro (_ | ⟨_, member⟩)
          · exact looked rfl
          · exact notPending (grows.pending other member)
        exact grows.stable (holds.stable other frame before wasNotPending)

theorem step_done {state : Verification} (stepped : step graph returnType state = .ok none) :
    state.pending = [] := by
  rcases step_ok stepped with ⟨empty, -⟩ | ⟨_, _, _, -, -, something⟩
  · exact empty
  · cases something

theorem run_of_step {state next : Verification}
    (stepped : step graph returnType state = .ok (some next)) :
    Verification.run graph returnType state = Verification.run graph returnType next := by
  rw [Verification.run, stepped]

/-- A run that succeeds ends in a state with nothing pending that keeps the invariant. -/
theorem Invariant.run {state : Verification} (holds : Invariant graph returnType entry state)
    (ran : Verification.run graph returnType state = .ok ()) :
    ∃ final, Invariant graph returnType entry final ∧ final.pending = [] := by
  induction state using Verification.run.induct graph returnType with
  | case1 state stop stepped =>
    rw [Verification.run, stepped] at ran
    cases ran
  | case2 state stepped =>
    exact ⟨state, holds, step_done stepped⟩
  | case3 state next stepped continues =>
    rw [run_of_step stepped] at ran
    exact continues (holds.step stepped) ran

/-- The first `count` steps of a run: the state they reach, `none` once no work is left, or
where a check failed. -/
def steps (graph : FlowGraph) (returnType : Option FieldType) :
    Nat → Verification → Except VerifyStop (Option Verification)
  | 0, state => .ok (some state)
  | count + 1, state => do
    match ← step graph returnType state with
    | none => pure none
    | some next => steps graph returnType count next

/-- A run is its first `count` steps followed by the run from the state they reach. -/
theorem run_eq_steps (count : Nat) (state : Verification) :
    Verification.run graph returnType state = (steps graph returnType count state).bind
      fun reached => reached.elim (.ok ()) (Verification.run graph returnType) := by
  induction count generalizing state with
  | zero => rfl
  | succ count more =>
    rw [steps]
    cases stepped : step graph returnType state with
    | error stop => rw [Verification.run, stepped]; rfl
    | ok reached =>
      cases reached with
      | none => rw [Verification.run, stepped]; rfl
      | some next => rw [run_of_step stepped, more next]; rfl

end Run

end Verification

/-! ## Frames that pass the verifier's rules -/

namespace FlowGraph

/-- Frames for the positions of a body that the verifier's rules accept: the first position's
frame covers the entry frame, and every position with a frame is stable. -/
structure Typing (graph : FlowGraph) (returnType : Option FieldType) (entry : Frame)
    (frames : Array (Option Frame)) : Prop where
  size : frames.size = graph.size
  start : ∃ first, frames[0]? = some (some first) ∧ first.Covers entry
  stable : ∀ (index : Nat) (frame : Frame), frames[index]? = some (some frame) →
    Verification.Stable graph returnType frames index frame

/-- Control passes from `index` to `next`: into a handler covering `index`, to the next entry
unless the entry is `ret` or a branch that does not fall through, or to a branch target. A `ret`
returns to the entry after the `jsr` that entered the subroutine, which the `jsr` itself passes
to. -/
def Edge (graph : FlowGraph) (index next : Nat) : Prop :=
  next ∈ graph.covering index ∨
    match graph.entries[index]? with
    | some (.label _) => next = index + 1
    | some (.instruction (.ret _)) => False
    | some (.instruction _) => next = index + 1
    | some (.branch branch) =>
      (∃ targets, graph.branchTargets branch = .ok targets ∧ next ∈ targets) ∨
        (branch.fallsThrough = true ∧ next = index + 1)
    | none => False

/-- The frames an entry passes on go everywhere control passes from it. -/
theorem successors_edge {graph : FlowGraph} {returnType : Option FieldType} {index next : Nat}
    {frame : Frame} {flows : List (Nat × Frame)}
    (found : graph.successors returnType index frame = .ok flows) (edge : graph.Edge index next) :
    (∃ passed, (next, passed) ∈ graph.handlerFlows index frame) ∨
      ∃ passed, (next, passed) ∈ flows := by
  rcases edge with handler | edge
  · exact .inl ⟨frame.forHandler, List.mem_map.mpr ⟨next, handler, rfl⟩⟩
  right
  unfold successors at found
  split at edge
  all_goals rename_i entry
  · rw [entry] at found
    cases found
    rw [edge]
    exact ⟨frame, List.mem_singleton_self _⟩
  · exact edge.elim
  · rename_i instruction notRet
    rw [entry] at found
    obtain ⟨after, -, found⟩ := bind_eq_ok found
    split at found
    · exact absurd rfl (notRet _)
    · cases found
      rw [edge]
      exact ⟨after, List.mem_singleton_self _⟩
  · rw [entry] at found
    obtain ⟨after, -, found⟩ := bind_eq_ok found
    obtain ⟨targets, targetsFound, found⟩ := bind_eq_ok found
    cases found
    rcases edge with ⟨targets', built, member⟩ | ⟨fallsThrough, rfl⟩
    · rw [built] at targetsFound
      cases targetsFound
      exact ⟨_, List.mem_append_left _ (List.mem_map.mpr ⟨next, member, rfl⟩)⟩
    · exact ⟨after, List.mem_append_right _ (by simp [fallsThrough])⟩
  · exact edge.elim

/-- Every position control reaches from the first has a frame and is stable with it. -/
theorem Typing.reachable {graph : FlowGraph} {returnType : Option FieldType} {entry : Frame}
    {frames : Array (Option Frame)} (typing : graph.Typing returnType entry frames) {index : Nat}
    (path : Relation.ReflTransGen graph.Edge 0 index) :
    ∃ frame, frames[index]? = some (some frame) ∧
      Verification.Stable graph returnType frames index frame := by
  induction path with
  | refl =>
    obtain ⟨first, found, -⟩ := typing.start
    exact ⟨first, found, typing.stable 0 first found⟩
  | @tail middle next _ edge reached =>
    obtain ⟨frame, -, handled, flows, found, received⟩ := reached
    have arrives : ∃ passed, Verification.Receives frames (next, passed) := by
      rcases successors_edge found edge with ⟨passed, member⟩ | ⟨passed, member⟩
      · exact ⟨passed, handled _ member⟩
      · exact ⟨passed, received _ member⟩
    obtain ⟨passed, known, knownFound, -⟩ := arrives
    exact ⟨known, knownFound, typing.stable _ known knownFound⟩

end FlowGraph

theorem Verification.Invariant.typing {graph : FlowGraph} {returnType : Option FieldType}
    {entry : Frame} {state : Verification} (holds : Invariant graph returnType entry state)
    (done : state.pending = []) : graph.Typing returnType entry state.frames where
  size := holds.size
  start := holds.start
  stable index frame found := holds.stable index frame found (by rw [done]; exact List.not_mem_nil)

/-! ## Accepted methods -/

namespace Method

/-- Frames typing a body of `method`: the body has a flow graph, and frames that start from the
method's entry frame and pass the verifier's rules. -/
def Typed (method : Method) (body : Body) : Prop :=
  ∃ graph, FlowGraph.ofBody body = .ok graph ∧ ∃ frames,
    graph.Typing method.descriptor.returnType
      (Frame.entry method.isStatic method.descriptor.parameters (body.maxLocals method.parameterSlots))
      frames

/-- Whatever the journal, verification of a method with a body either fails or has found frames
that type the body. -/
theorem verify_meets (className : BinaryName) {method : Method} {body : Body}
    (found : method.body = some body) :
    Meets (fun _ => True) (fun _ => method.Typed body) (method.verify className) := by
  unfold verify
  rw [found]
  refine Meets.bind (Q := fun graph => FlowGraph.ofBody body = .ok graph) (Meets.liftExcept ?_)
    fun graph built => ?_
  · cases FlowGraph.ofBody body <;> trivial
  dsimp only
  split
  · -- the run stopped with an empty worklist: its frames type the body
    rename_i finished
    split at finished
    · cases finished
    · rename_i state started
      obtain ⟨final, holds, done⟩ := (Verification.Invariant.initial started).run finished
      exact Meets.pure ⟨graph, built, final.frames, holds.typing done⟩
  · exact Meets.throw trivial
  · exact Meets.bind (Q := fun _ => True) (Meets.of_lift fun _ => trivial)
      fun _ _ => Meets.throw trivial

/-- Verification accepts a method only with frames typing its body, in which every position that
control reaches from the start has a frame passing the verifier's rules, and that frame covers
what each edge into it brings: slot for slot the same type, or `top` where paths disagree. -/
theorem verify_accepts_typed {className : BinaryName} {method : Method} {body : Body}
    {journal : Journal} (found : method.body = some body)
    (accepted : ((method.verify className).run.run journal).1 = .ok ()) :
    ∃ graph, FlowGraph.ofBody body = .ok graph ∧ ∃ frames,
      graph.Typing method.descriptor.returnType
        (Frame.entry method.isStatic method.descriptor.parameters
          (body.maxLocals method.parameterSlots)) frames ∧
      ∀ index, Relation.ReflTransGen graph.Edge 0 index → ∃ frame,
        frames[index]? = some (some frame) ∧
          Verification.Stable graph method.descriptor.returnType frames index frame := by
  have typed := verify_meets className found journal
  rw [accepted] at typed
  obtain ⟨graph, built, frames, typing⟩ := typed
  exact ⟨graph, built, frames, typing, fun _ path => typing.reachable path⟩

/-- The two paths of this body meet with an `int` on one and a `long` on the other, and `pop`
takes the merged `top`. -/
def intLongJoinBody : Body where
  entries := #[.instruction (.load .int 0), .branch (.ifZero .eq ⟨0⟩), .instruction (.iconst .zero),
    .branch (.goto ⟨1⟩), .label ⟨0⟩, .instruction (.lconst ⟨0, Nat.two_pos⟩), .label ⟨1⟩,
    .instruction (.stack .pop), .branch .returnVoid]

def intLongJoin : Method where
  flags := MethodFlags.ofBits 9
  name := ⟨"m"⟩
  descriptor := ⟨[.base .int], none⟩
  body := some intLongJoinBody

theorem intLongJoin_accepted_typed :
    ((intLongJoin.verify ⟨"A"⟩).run.run {}).1 = .ok () ∧ intLongJoin.Typed intLongJoinBody := by
  have accepted : ((intLongJoin.verify ⟨"A"⟩).run.run {}).1 = .ok () := by
    unfold verify
    simp only [Verification.run_eq_steps 20]
    cbv
  obtain ⟨graph, built, frames, typing, -⟩ := verify_accepts_typed rfl accepted
  exact ⟨accepted, graph, built, frames, typing⟩

end Method

end ClassKit
