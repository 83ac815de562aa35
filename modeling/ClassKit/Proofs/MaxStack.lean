import ClassKit.Proofs.Labels

/-!
# The deepest stack of a body

`Body.maxStack` searches the flow graph depth first and keeps, for each entry, the first stack
depth it reaches it with. This module says what it computes. Control passes from an entry to
covering handlers (with the exception alone on the stack), to the next entry after a label or
an instruction other than `ret`, to each target of a branch (a `jsr` target also receiving the
return address) and past a branch that falls through, each time with the depth the entry's
stack effect leaves (`FlowGraph.DepthStep`). When every entry control reaches from the first
is reached with one depth only, no path pops more than the stack holds, and every label a
reached branch jumps to is placed, the search returns the greatest depth before or after any
reached entry (`maxStack_is_greatest_reached_depth`).

The proof is the worklist argument: positions with a depth are reached with it, pending
positions have a depth, and a position that has been looked at has passed a depth to every
successor (`DepthSearch.Invariant`). One round of the search keeps this, and lowers the count of
pending and unreached positions, which bounds the rounds the search needs.
-/

namespace ClassKit

namespace Branch

/-- Slots a branch adds on the way into its targets: the return address of a `jsr`. -/
def returnAddressSlots {τ : Type} : Branch τ → Nat
  | jsr _ => 1
  | _ => 0

end Branch

namespace FlowGraph

/-- Slots the entry at `position` pops. -/
def popsAt (graph : FlowGraph) (position : Nat) : Nat :=
  match graph.entries[position]? with
  | some (.instruction instruction) => instruction.stackEffect.1
  | some (.branch branch) => branch.stackPops
  | _ => 0

/-- The stack depth after the entry at `position`, entered with `depth`. -/
def depthAfter (graph : FlowGraph) (position depth : Nat) : Nat :=
  match graph.entries[position]? with
  | some (.instruction instruction) => depth - instruction.stackEffect.1 + instruction.stackEffect.2
  | some (.branch branch) => depth - branch.stackPops
  | _ => depth

/-- One step of control, with the depth of the operand stack in slots: from an entry reached
with `depth` into each covering handler with the exception alone on the stack, to the next
entry after a label or an instruction other than `ret`, to each target of a branch (a `jsr`
target also receives the return address), and past a branch that falls through. An entry that
would pop more than the stack holds leads nowhere. -/
inductive DepthStep (graph : FlowGraph) : Nat × Nat → Nat × Nat → Prop
  | handler {position depth target : Nat} (covers : target ∈ graph.covering position)
      (inside : target < graph.size) : DepthStep graph (position, depth) (target, 1)
  | label {position depth : Nat} {label : Label}
      (found : graph.entries[position]? = some (.label label)) (inside : position + 1 < graph.size) :
      DepthStep graph (position, depth) (position + 1, depth)
  | instruction {position depth : Nat} {instruction : Instruction}
      (found : graph.entries[position]? = some (.instruction instruction))
      (notRet : ∀ slot, instruction ≠ .ret slot) (fits : instruction.stackEffect.1 ≤ depth)
      (inside : position + 1 < graph.size) :
      DepthStep graph (position, depth)
        (position + 1, depth - instruction.stackEffect.1 + instruction.stackEffect.2)
  | jump {position depth : Nat} {branch : Branch Label} {targets : List Nat} {target : Nat}
      (found : graph.entries[position]? = some (.branch branch)) (fits : branch.stackPops ≤ depth)
      (resolved : graph.branchTargets branch = .ok targets) (member : target ∈ targets)
      (inside : target < graph.size) :
      DepthStep graph (position, depth)
        (target, depth - branch.stackPops + branch.returnAddressSlots)
  | fallThrough {position depth : Nat} {branch : Branch Label}
      (found : graph.entries[position]? = some (.branch branch)) (fits : branch.stackPops ≤ depth)
      (falls : branch.fallsThrough = true) (inside : position + 1 < graph.size) :
      DepthStep graph (position, depth) (position + 1, depth - branch.stackPops)

/-- Control reaches the entry at `position` with `depth` slots on the stack, starting from the
first entry with an empty stack. -/
def Reaches (graph : FlowGraph) (position depth : Nat) : Prop :=
  0 < graph.size ∧ Relation.ReflTransGen graph.DepthStep (0, 0) (position, depth)

/-- The depths of the stack before and after every entry control reaches. -/
def reachedDepths (graph : FlowGraph) : Set Nat :=
  {slots | ∃ position depth, graph.Reaches position depth ∧
    (slots = depth ∨ slots = graph.depthAfter position depth)}

namespace DepthStep

variable {graph : FlowGraph} {position depth next nextDepth : Nat}

/-- Every step lands on an entry. -/
theorem lt_size (step : graph.DepthStep (position, depth) (next, nextDepth)) :
    next < graph.size := by
  cases step with
  | handler _ inside => exact inside
  | label _ inside => exact inside
  | instruction _ _ _ inside => exact inside
  | jump _ _ _ _ inside => exact inside
  | fallThrough _ _ _ inside => exact inside

/-- From a label control goes to a handler or to the next entry. -/
theorem of_label {label : Label} (found : graph.entries[position]? = some (.label label))
    (step : graph.DepthStep (position, depth) (next, nextDepth)) :
    next ∈ graph.covering position ∨ next = position + 1 := by
  cases step with
  | handler covers _ => exact .inl covers
  | label _ _ => exact .inr rfl
  | instruction other _ _ _ | jump other _ _ _ _ | fallThrough other _ _ _ =>
    rw [found] at other
    cases other

/-- From an instruction control goes to a handler or, unless it is a `ret`, to the next entry. -/
theorem of_instruction {instruction : Instruction}
    (found : graph.entries[position]? = some (.instruction instruction))
    (step : graph.DepthStep (position, depth) (next, nextDepth)) :
    next ∈ graph.covering position ∨ ((∀ slot, instruction ≠ .ret slot) ∧ next = position + 1) := by
  cases step with
  | handler covers _ => exact .inl covers
  | instruction other notRet _ _ =>
    rw [found] at other
    cases other
    exact .inr ⟨notRet, rfl⟩
  | label other _ | jump other _ _ _ _ | fallThrough other _ _ _ =>
    rw [found] at other
    cases other

/-- From a branch control goes to a handler, to a target of the branch or, when the branch
falls through, to the next entry. -/
theorem of_branch {branch : Branch Label} {targets : List Nat}
    (found : graph.entries[position]? = some (.branch branch))
    (resolved : graph.branchTargets branch = .ok targets)
    (step : graph.DepthStep (position, depth) (next, nextDepth)) :
    next ∈ graph.covering position ∨ next ∈ targets ∨
      (branch.fallsThrough = true ∧ next = position + 1) := by
  cases step with
  | handler covers _ => exact .inl covers
  | jump other _ resolved' member _ =>
    rw [found] at other
    cases other
    rw [resolved] at resolved'
    cases resolved'
    exact .inr (.inl member)
  | fallThrough other _ falls _ =>
    rw [found] at other
    cases other
    exact .inr (.inr ⟨falls, rfl⟩)
  | label other _ | instruction other _ _ _ =>
    rw [found] at other
    cases other

end DepthStep

theorem branchTargets_ok {graph : FlowGraph} {branch : Branch Label}
    (placed : ∀ label ∈ branch.targets, label ∈ graph.positions) :
    ∃ targets, graph.branchTargets branch = .ok targets :=
  mapM_ok fun label member => labelPosition_ok (placed label member)

theorem Reaches.step {graph : FlowGraph} {position depth next nextDepth : Nat}
    (reach : graph.Reaches position depth)
    (step : graph.DepthStep (position, depth) (next, nextDepth)) : graph.Reaches next nextDepth :=
  ⟨reach.1, reach.2.tail step⟩

/-- Every reached entry lies in a set of positions and depths that holds the start and that no
step leaves. -/
theorem Reaches.mem_of_closed {graph : FlowGraph} (reached : Nat × Nat → Prop)
    (start : reached (0, 0)) (closed : ∀ here there, reached here → graph.DepthStep here there →
      reached there) {position depth : Nat} (reach : graph.Reaches position depth) :
    reached (position, depth) := by
  have along : ∀ here, Relation.ReflTransGen graph.DepthStep (0, 0) here → reached here := by
    intro here path
    induction path with
    | refl => exact start
    | tail _ step earlier => exact closed _ _ earlier step
  exact along _ reach.2

/-- The depth after an instruction is the one its stack effect leaves. -/
theorem depthAfter_instruction {graph : FlowGraph} {position depth : Nat}
    {instruction : Instruction} (entry : graph.entries[position]? = some (.instruction instruction)) :
    graph.depthAfter position depth = depth - instruction.stackEffect.1 + instruction.stackEffect.2 := by
  simp only [depthAfter, entry]

/-- A branch leaves no more on the stack than it found. -/
theorem depthAfter_le_of_branch {graph : FlowGraph} {position depth : Nat} {branch : Branch Label}
    (entry : graph.entries[position]? = some (.branch branch)) :
    graph.depthAfter position depth ≤ depth := by
  simp only [depthAfter, entry]
  exact Nat.sub_le _ _

end FlowGraph

namespace DepthSearch

/-- One round of the search, at `position`, once it has left the pending positions: the
search the next round starts from. -/
def advance (graph : FlowGraph) (position : Nat) (search : DepthSearch) :
    Except ClassError DepthSearch :=
  let depth := (search.depths[position]?.join).getD 0
  let search := (graph.covering position).foldl (fun search target => search.visit target 1) search
  match graph.entries[position]? with
  | some (.label _) => .ok (search.visit (position + 1) depth)
  | some (.instruction instruction) =>
    let after := depth - instruction.stackEffect.1 + instruction.stackEffect.2
    let search := { search with deepest := max search.deepest after }
    match instruction with
    | .ret _ => .ok search
    | _ => .ok (search.visit (position + 1) after)
  | some (.branch branch) => do
    let after := depth - branch.stackPops
    let targets ← graph.branchTargets branch
    let search := targets.foldl
      (fun search target => search.visit target (after + branch.returnAddressSlots)) search
    if branch.fallsThrough then .ok (search.visit (position + 1) after) else .ok search
  | none => .ok search

/-- The search stops when nothing is pending. -/
theorem run_succ_of_nil (graph : FlowGraph) (rounds : Nat) (search : DepthSearch)
    (done : search.pending = []) : run graph (rounds + 1) search = .ok search.deepest := by
  rw [run, done]

/-- A round of the search is `advance` at the first pending position. -/
theorem run_succ_of_cons (graph : FlowGraph) (rounds : Nat) (search : DepthSearch)
    {position : Nat} {rest : List Nat} (waiting : search.pending = position :: rest) :
    run graph (rounds + 1) search =
      advance graph position { search with pending := rest } >>= run graph rounds := by
  rw [run, waiting]
  dsimp only [advance]
  cases graph.entries[position]? with
  | none => rfl
  | some entry =>
    cases entry with
    | label => rfl
    | instruction instruction => cases instruction <;> rfl
    | branch branch =>
      -- both sides consult the targets of the branch before going on
      dsimp only
      cases graph.branchTargets branch <;> cases branch <;> rfl

/-- Positions the search has still to look at: the pending ones and those it has not reached. -/
def remaining (search : DepthSearch) : Nat :=
  search.pending.length + search.depths.toList.count none

/-- The search has reached `position`. -/
def Seen (search : DepthSearch) (position : Nat) : Prop :=
  ∃ depth, search.depths[position]? = some (some depth)

theorem visit_of_fresh {search : DepthSearch} {position depth : Nat}
    (fresh : search.depths[position]? = some none) :
    search.visit position depth = ⟨search.depths.set! position (some depth),
      position :: search.pending, max search.deepest depth⟩ := by
  rw [visit, fresh]

theorem visit_of_not_fresh {search : DepthSearch} {position depth : Nat}
    (seen : search.depths[position]? ≠ some none) : search.visit position depth = search := by
  rw [visit]
  split
  · contradiction
  · rfl

theorem lookup_set_of_fresh {search : DepthSearch} {position : Nat} (value : Option Nat)
    (fresh : search.depths[position]? = some none) (other : Nat) :
    (search.depths.set! position value)[other]? =
      if position = other then some value else search.depths[other]? := by
  have inside : position < search.depths.size := (Array.getElem?_eq_some_iff.mp fresh).1
  rw [Array.set!_eq_setIfInBounds, Array.getElem?_setIfInBounds]
  simp only [inside, ↓reduceIte]

/-- Visiting a fresh position trades one unreached position for one pending. -/
theorem remaining_visit (search : DepthSearch) (position depth : Nat) :
    (search.visit position depth).remaining = search.remaining := by
  by_cases fresh : search.depths[position]? = some none
  · obtain ⟨inside, wasNone⟩ := Array.getElem?_eq_some_iff.mp fresh
    rw [← Array.length_toList] at inside
    rw [← Array.getElem_toList inside] at wasNone
    have counted : 0 < search.depths.toList.count none :=
      List.count_pos_iff.mpr (wasNone ▸ List.getElem_mem inside)
    rw [visit_of_fresh fresh]
    simp only [remaining, List.length_cons, Array.set!_eq_setIfInBounds,
      Array.toList_setIfInBounds, List.count_set inside, wasNone]
    simp only [BEq.rfl, ↓reduceIte, reduceCtorEq, beq_iff_eq, Nat.add_zero]
    omega
  · rw [visit_of_not_fresh fresh]

/-- `later` comes from `search` by visits and raises of the deepest stack: what was reached keeps
its depth and its place in the pending positions, the deepest stack does not drop, and the count
of positions still to look at does not change. -/
structure Extends (search later : DepthSearch) : Prop where
  size : later.depths.size = search.depths.size
  seen : ∀ position depth : Nat, search.depths[position]? = some (some depth) →
    later.depths[position]? = some (some depth)
  pending : ∀ position depth : Nat, search.depths[position]? = some (some depth) →
    (position ∈ later.pending ↔ position ∈ search.pending)
  deepest : search.deepest ≤ later.deepest
  remaining : later.remaining = search.remaining

namespace Extends

theorem refl (search : DepthSearch) : Extends search search :=
  ⟨rfl, fun _ _ => id, fun _ _ _ => Iff.rfl, le_rfl, rfl⟩

theorem trans {first second third : DepthSearch} (early : Extends first second)
    (late : Extends second third) : Extends first third where
  size := late.size.trans early.size
  seen position depth found := late.seen position depth (early.seen position depth found)
  pending position depth found :=
    (late.pending position depth (early.seen position depth found)).trans
      (early.pending position depth found)
  deepest := early.deepest.trans late.deepest
  remaining := late.remaining.trans early.remaining

theorem visit (search : DepthSearch) (target depth : Nat) :
    Extends search (search.visit target depth) := by
  by_cases fresh : search.depths[target]? = some none
  · have extended : Extends search ⟨search.depths.set! target (some depth),
        target :: search.pending, max search.deepest depth⟩ := by
      refine ⟨Array.size_set! _ _ _, ?_, ?_, le_max_left _ _, ?_⟩
      · intro position found seen
        rw [lookup_set_of_fresh _ fresh]
        -- the visited position was fresh, so it is not one already reached
        have other : target ≠ position := by
          rintro rfl
          rw [fresh] at seen
          cases seen
        simp only [other, ↓reduceIte, seen]
      · intro position found seen
        have other : position ≠ target := by
          rintro rfl
          rw [fresh] at seen
          cases seen
        simp only [List.mem_cons, other, false_or]
      · rw [← visit_of_fresh fresh]
        exact remaining_visit search target depth
    rw [visit_of_fresh fresh]
    exact extended
  · rw [visit_of_not_fresh fresh]
    exact refl search

theorem foldl_visit (targets : List Nat) (depth : Nat) (search : DepthSearch) :
    Extends search (targets.foldl (fun search target => search.visit target depth) search) := by
  induction targets generalizing search with
  | nil => exact refl search
  | cons target rest ih => exact (visit search target depth).trans (ih _)

theorem raise (search : DepthSearch) (depth : Nat) :
    Extends search { search with deepest := max search.deepest depth } :=
  ⟨rfl, fun _ _ => id, fun _ _ _ => Iff.rfl, le_max_left _ _, rfl⟩

end Extends

theorem seen_visit_self (search : DepthSearch) {target : Nat} (depth : Nat)
    (inside : target < search.depths.size) : (search.visit target depth).Seen target := by
  by_cases fresh : search.depths[target]? = some none
  · refine ⟨depth, ?_⟩
    rw [visit_of_fresh fresh]
    simp only [lookup_set_of_fresh _ fresh, ↓reduceIte]
  · rw [visit_of_not_fresh fresh]
    obtain ⟨found, lookup⟩ : ∃ found, search.depths[target]? = some found :=
      ⟨_, Array.getElem?_eq_getElem inside⟩
    cases found with
    | none => exact absurd lookup fresh
    | some depth => exact ⟨depth, lookup⟩

theorem seen_foldl_visit (targets : List Nat) (depth : Nat) (search : DepthSearch) {target : Nat}
    (member : target ∈ targets) (inside : target < search.depths.size) :
    (targets.foldl (fun search target => search.visit target depth) search).Seen target := by
  induction targets generalizing search with
  | nil => cases member
  | cons first rest ih =>
    rw [List.foldl_cons]
    rcases List.mem_cons.mp member with rfl | later
    · obtain ⟨found, lookup⟩ := seen_visit_self search depth inside
      exact ⟨found, (Extends.foldl_visit rest depth _).seen target found lookup⟩
    · exact ih _ later (by rw [(Extends.visit search first depth).size]; exact inside)

theorem Seen.extend {search later : DepthSearch} {position : Nat} (seen : search.Seen position)
    (extended : Extends search later) : later.Seen position := by
  obtain ⟨depth, found⟩ := seen
  exact ⟨depth, extended.seen position depth found⟩

/-- The search has looked at `position`, reached with `depth`: the depth after the entry counts
towards the deepest stack, and every entry one step on has been reached. -/
def Settled (graph : FlowGraph) (search : DepthSearch) (position depth : Nat) : Prop :=
  graph.depthAfter position depth ≤ search.deepest ∧
    ∀ next nextDepth, graph.DepthStep (position, depth) (next, nextDepth) → search.Seen next

theorem Settled.extend {graph : FlowGraph} {search later : DepthSearch} {position depth : Nat}
    (settled : Settled graph search position depth) (extended : Extends search later) :
    Settled graph later position depth := by
  obtain ⟨after, onward⟩ := settled
  refine ⟨after.trans extended.deepest, fun next nextDepth step => ?_⟩
  obtain ⟨seenDepth, found⟩ := onward next nextDepth step
  exact ⟨seenDepth, extended.seen next seenDepth found⟩

/-- What holds of the search between rounds (`looking = []`) and during the round at a position
(`looking = [position]`): depths found are depths control reaches with, pending positions have
been reached, the deepest stack is zero or a reached depth and bounds every depth found, and every
position found that is neither pending nor being looked at is settled. -/
structure Invariant (graph : FlowGraph) (search : DepthSearch) (looking : List Nat) : Prop where
  size : search.depths.size = graph.size
  reached : ∀ position depth : Nat, search.depths[position]? = some (some depth) →
    graph.Reaches position depth
  pendingSeen : ∀ position ∈ search.pending, search.Seen position
  nodup : search.pending.Nodup
  attained : search.deepest ∈ insert 0 graph.reachedDepths
  below : ∀ position depth : Nat, search.depths[position]? = some (some depth) →
    depth ≤ search.deepest
  settled : ∀ position depth : Nat, search.depths[position]? = some (some depth) →
    position ∉ search.pending → position ∉ looking → Settled graph search position depth

namespace Invariant

variable {graph : FlowGraph} {search : DepthSearch} {looking : List Nat}

/-- Visiting a position keeps the invariant when control reaches it with the depth given. -/
theorem visit (invariant : Invariant graph search looking) {target depth : Nat}
    (reach : target < graph.size → graph.Reaches target depth) :
    Invariant graph (search.visit target depth) looking := by
  by_cases fresh : search.depths[target]? = some none
  · have extended := Extends.visit search target depth
    rw [visit_of_fresh fresh] at extended ⊢
    have inside : target < graph.size :=
      invariant.size ▸ (Array.getElem?_eq_some_iff.mp fresh).1
    have notPending : target ∉ search.pending := fun member => by
      obtain ⟨_, found⟩ := invariant.pendingSeen target member
      rw [fresh] at found
      cases found
    -- a position found after the visit is the visited one, with `depth`, or one found before
    have lookup : ∀ position found, (search.depths.set! target (some depth))[position]? =
        some (some found) → (target = position ∧ found = depth) ∨
          (target ≠ position ∧ search.depths[position]? = some (some found)) := by
      intro position found seen
      rw [lookup_set_of_fresh _ fresh] at seen
      by_cases same : target = position
      · simp only [same, ↓reduceIte, Option.some.injEq] at seen
        exact .inl ⟨same, seen.symm⟩
      · simp only [same, ↓reduceIte] at seen
        exact .inr ⟨same, seen⟩
    refine ⟨extended.size.trans invariant.size, ?_, ?_, invariant.nodup.cons notPending, ?_, ?_,
      ?_⟩
    · intro position found seen
      rcases lookup position found seen with ⟨rfl, rfl⟩ | ⟨_, earlier⟩
      · exact reach inside
      · exact invariant.reached position found earlier
    · intro position member
      rcases List.mem_cons.mp member with rfl | earlier
      · exact ⟨depth, by rw [lookup_set_of_fresh _ fresh]; simp⟩
      · obtain ⟨found, seen⟩ := invariant.pendingSeen position earlier
        exact ⟨found, extended.seen position found seen⟩
    · rcases max_choice search.deepest depth with raised | raised <;> rw [raised]
      · exact invariant.attained
      · exact Set.mem_insert_of_mem _ ⟨target, depth, reach inside, .inl rfl⟩
    · intro position found seen
      rcases lookup position found seen with ⟨rfl, rfl⟩ | ⟨_, earlier⟩
      · exact le_max_right _ _
      · exact (invariant.below position found earlier).trans (le_max_left _ _)
    · intro position found seen notPending' notLooking
      rcases lookup position found seen with ⟨rfl, rfl⟩ | ⟨_, earlier⟩
      · exact absurd List.mem_cons_self notPending'
      · exact (invariant.settled position found earlier (fun member =>
          notPending' (List.mem_cons_of_mem _ member)) notLooking).extend extended
  · rw [visit_of_not_fresh fresh]
    exact invariant

theorem foldl_visit (invariant : Invariant graph search looking) {targets : List Nat}
    {depth : Nat} (reach : ∀ target ∈ targets, target < graph.size → graph.Reaches target depth) :
    Invariant graph (targets.foldl (fun search target => search.visit target depth) search)
      looking := by
  induction targets generalizing search with
  | nil => exact invariant
  | cons target rest ih =>
    exact ih (invariant.visit (reach target List.mem_cons_self))
      fun other member => reach other (List.mem_cons_of_mem _ member)

/-- Raising the deepest stack to a reached depth keeps the invariant. -/
theorem raise (invariant : Invariant graph search looking) {depth : Nat}
    (attained : depth ∈ graph.reachedDepths) :
    Invariant graph { search with deepest := max search.deepest depth } looking where
  size := invariant.size
  reached := invariant.reached
  pendingSeen := invariant.pendingSeen
  nodup := invariant.nodup
  attained := by
    rcases max_choice search.deepest depth with raised | raised <;> rw [raised]
    · exact invariant.attained
    · exact Set.mem_insert_of_mem _ attained
  below position found seen := (invariant.below position found seen).trans (le_max_left _ _)
  settled position found seen notPending notLooking :=
    (invariant.settled position found seen notPending notLooking).extend (Extends.raise search depth)

/-- A round starts by taking the first pending position to look at. -/
theorem pop (invariant : Invariant graph search []) {position : Nat} {rest : List Nat}
    (queued : search.pending = position :: rest) :
    Invariant graph { search with pending := rest } [position] := by
  have nodup := invariant.nodup
  rw [queued] at nodup
  refine ⟨invariant.size, invariant.reached, fun other member => ?_, (List.nodup_cons.mp nodup).2,
    invariant.attained, invariant.below, ?_⟩
  · exact invariant.pendingSeen other (queued ▸ List.mem_cons_of_mem _ member)
  · intro other found seen notPending notLooking
    refine invariant.settled other found seen ?_ List.not_mem_nil
    rw [queued, List.mem_cons, not_or]
    exact ⟨fun same => notLooking (same ▸ List.mem_singleton_self _), notPending⟩

/-- A round ends with the invariant once the position it looked at is settled. -/
theorem close {position : Nat} (invariant : Invariant graph search [position])
    (notPending : position ∉ search.pending)
    (settled : ∀ depth, search.depths[position]? = some (some depth) →
      Settled graph search position depth) :
    Invariant graph search [] := by
  refine ⟨invariant.size, invariant.reached, invariant.pendingSeen, invariant.nodup,
    invariant.attained, invariant.below, ?_⟩
  intro other found seen notPending' _
  by_cases same : other = position
  · subst same
    exact settled found seen
  · exact invariant.settled other found seen notPending' (by simpa using same)

/-- A round that extends the search it started from, at a position that was found and no
longer pending there, ends with the invariant once that position is settled. -/
theorem finish {start : DepthSearch} {position depth : Nat}
    (invariant : Invariant graph search [position]) (extended : Extends start search)
    (found : start.depths[position]? = some (some depth)) (notPending : position ∉ start.pending)
    (settled : Settled graph search position depth) : Invariant graph search [] := by
  refine invariant.close (fun member => notPending ?_) fun seenDepth seen => ?_
  · exact (extended.pending position depth found).mp member
  · rw [extended.seen position depth found, Option.some.injEq, Option.some.injEq] at seen
    exact seen ▸ settled

end Invariant

section Round

variable {graph : FlowGraph} {start search : DepthSearch} {position depth : Nat}

/-- The search a round at `position`, found with `depth`, holds once it has visited the handlers
covering the position: it extends the search the round started from, keeps the invariant and has
seen every handler. The rest of the round only extends it. -/
structure Handled (graph : FlowGraph) (start search : DepthSearch) (position depth : Nat) :
    Prop where
  reach : graph.Reaches position depth
  found : start.depths[position]? = some (some depth)
  extended : Extends start search
  invariant : Invariant graph search [position]
  handlersSeen : ∀ target ∈ graph.covering position, target < graph.size → search.Seen target

/-- What a round at `position` hands on: a search that extends the one it started from, keeps the
invariant and has settled the position. -/
structure RoundEnd (graph : FlowGraph) (start next : DepthSearch) (position depth : Nat) :
    Prop where
  extended : Extends start next
  invariant : Invariant graph next [position]
  settled : Settled graph next position depth

namespace Handled

/-- A round starts by visiting the handlers covering its position, each with the exception
alone on the stack. -/
theorem of_found (invariant : Invariant graph start [position])
    (found : start.depths[position]? = some (some depth)) :
    Handled graph start
      ((graph.covering position).foldl (fun search target => search.visit target 1) start)
      position depth where
  reach := invariant.reached position depth found
  found := found
  extended := Extends.foldl_visit (graph.covering position) 1 start
  invariant := invariant.foldl_visit fun _ member inside =>
    (invariant.reached position depth found).step (.handler member inside)
  handlersSeen _ member inside := seen_foldl_visit _ _ _ member (invariant.size ▸ inside)

variable (handled : Handled graph start search position depth)
include handled

theorem size {next : Nat} (inside : next < graph.size) : next < search.depths.size :=
  handled.invariant.size ▸ inside

/-- Any later search keeps the depth the position was found with, below its deepest stack. -/
theorem depth_le {later : DepthSearch} (extended : Extends search later)
    (invariant : Invariant graph later [position]) : depth ≤ later.deepest :=
  invariant.below position depth ((handled.extended.trans extended).seen position depth handled.found)

/-- Any later search has seen the handlers a step from the position goes to. -/
theorem handler_seen {later : DepthSearch} (extended : Extends search later) {next nextDepth : Nat}
    (step : graph.DepthStep (position, depth) (next, nextDepth))
    (covers : next ∈ graph.covering position) : later.Seen next :=
  (handled.handlersSeen next covers step.lt_size).extend extended

/-- Visiting the next entry with the depth a step gives it ends the round, once the depth after
the entry counts and every step goes to a handler or to the next entry. -/
theorem visit_next {next : DepthSearch} (raised : Extends search next)
    (invariant : Invariant graph next [position]) {after : Nat}
    (counted : graph.depthAfter position depth ≤ next.deepest)
    (reachNext : position + 1 < graph.size → graph.Reaches (position + 1) after)
    (onward : ∀ target targetDepth, graph.DepthStep (position, depth) (target, targetDepth) →
      target ∈ graph.covering position ∨ next.Seen target ∨ target = position + 1) :
    RoundEnd graph start (next.visit (position + 1) after) position depth := by
  have moved := Extends.visit next (position + 1) after
  refine ⟨(handled.extended.trans raised).trans moved, invariant.visit reachNext,
    counted.trans moved.deepest, fun target targetDepth step => ?_⟩
  rcases onward target targetDepth step with covers | seen | rfl
  · exact handled.handler_seen (raised.trans moved) step covers
  · exact seen.extend moved
  · exact seen_visit_self _ _ (raised.size ▸ handled.size step.lt_size)

/-- After a label control goes on with the depth unchanged. -/
theorem label {label : Label} (entry : graph.entries[position]? = some (.label label)) :
    RoundEnd graph start (search.visit (position + 1) depth) position depth := by
  refine handled.visit_next (.refl search) handled.invariant ?_
    (fun inside => handled.reach.step (.label entry inside)) fun target _ step => ?_
  · simp only [FlowGraph.depthAfter, entry]
    exact handled.depth_le (.refl search) handled.invariant
  · rcases step.of_label entry with covers | rfl
    · exact .inl covers
    · exact .inr (.inr rfl)

/-- A `ret` ends its path: the depth after it counts, and only the handlers follow it. -/
theorem ret {slot : UInt16} (entry : graph.entries[position]? = some (.instruction (.ret slot))) :
    RoundEnd graph start
      { search with
        deepest := max search.deepest
          (depth - (Instruction.ret slot).stackEffect.1 + (Instruction.ret slot).stackEffect.2) }
      position depth := by
  have after : graph.depthAfter position depth = _ := graph.depthAfter_instruction entry
  have raised := Extends.raise search
    (depth - (Instruction.ret slot).stackEffect.1 + (Instruction.ret slot).stackEffect.2)
  refine ⟨handled.extended.trans raised,
    handled.invariant.raise ⟨position, depth, handled.reach, .inr after.symm⟩, ?_,
    fun target targetDepth step => ?_⟩
  · rw [after]
    exact le_max_right _ _
  · rcases step.of_instruction entry with covers | ⟨notRet, _⟩
    · exact handled.handler_seen raised step covers
    · exact absurd rfl (notRet slot)

/-- After an instruction other than `ret` control goes on with the depth its stack effect
leaves, which counts towards the deepest stack. -/
theorem instruction {instruction : Instruction}
    (entry : graph.entries[position]? = some (.instruction instruction))
    (notRet : ∀ slot, instruction ≠ .ret slot) (fits : graph.popsAt position ≤ depth) :
    RoundEnd graph start
      (DepthSearch.visit
        { search with
          deepest := max search.deepest
            (depth - instruction.stackEffect.1 + instruction.stackEffect.2) }
        (position + 1) (depth - instruction.stackEffect.1 + instruction.stackEffect.2))
      position depth := by
  have fits : instruction.stackEffect.1 ≤ depth := by
    simpa only [FlowGraph.popsAt, entry] using fits
  have after : graph.depthAfter position depth = _ := graph.depthAfter_instruction entry
  refine handled.visit_next (Extends.raise search _)
    (handled.invariant.raise ⟨position, depth, handled.reach, .inr after.symm⟩) ?_
    (fun inside => handled.reach.step (.instruction entry notRet fits inside))
    fun target _ step => ?_
  · rw [after]
    exact le_max_right _ _
  · rcases step.of_instruction entry with covers | ⟨_, rfl⟩
    · exact .inl covers
    · exact .inr (.inr rfl)

/-- The jumps of a branch visit its targets with the depth after it, a `jsr` target also
receiving the return address; the search is still one the round has handled. -/
theorem jumps {branch : Branch Label} {targets : List Nat}
    (entry : graph.entries[position]? = some (.branch branch)) (fits : branch.stackPops ≤ depth)
    (resolved : graph.branchTargets branch = .ok targets) :
    Handled graph start (targets.foldl (fun search target =>
        search.visit target (depth - branch.stackPops + branch.returnAddressSlots)) search)
      position depth ∧
    ∀ target ∈ targets, target < graph.size → (targets.foldl (fun search target =>
        search.visit target (depth - branch.stackPops + branch.returnAddressSlots)) search).Seen
      target := by
  have jumped := Extends.foldl_visit targets (depth - branch.stackPops + branch.returnAddressSlots)
    search
  refine ⟨⟨handled.reach, handled.found, handled.extended.trans jumped, ?_, ?_⟩, ?_⟩
  · exact handled.invariant.foldl_visit fun _ member inside =>
      handled.reach.step (.jump entry fits resolved member inside)
  · exact fun target covers inside => (handled.handlersSeen target covers inside).extend jumped
  · exact fun target member inside => seen_foldl_visit _ _ _ member (handled.size inside)

/-- A branch that falls through also passes control to the next entry. -/
theorem fallThrough {branch : Branch Label} {targets : List Nat}
    (entry : graph.entries[position]? = some (.branch branch)) (fits : branch.stackPops ≤ depth)
    (resolved : graph.branchTargets branch = .ok targets) (falls : branch.fallsThrough = true) :
    RoundEnd graph start ((targets.foldl (fun search target =>
        search.visit target (depth - branch.stackPops + branch.returnAddressSlots)) search).visit
      (position + 1) (depth - branch.stackPops)) position depth := by
  obtain ⟨jumped, targetsSeen⟩ := handled.jumps entry fits resolved
  refine jumped.visit_next (.refl _) jumped.invariant
    ((graph.depthAfter_le_of_branch entry).trans (jumped.depth_le (.refl _) jumped.invariant))
    (fun inside => handled.reach.step (.fallThrough entry fits falls inside))
    fun target _ step => ?_
  rcases step.of_branch entry resolved with covers | member | ⟨_, rfl⟩
  · exact .inl covers
  · exact .inr (.inl (targetsSeen target member step.lt_size))
  · exact .inr (.inr rfl)

/-- A branch that does not fall through passes control to its targets only. -/
theorem stop {branch : Branch Label} {targets : List Nat}
    (entry : graph.entries[position]? = some (.branch branch)) (fits : branch.stackPops ≤ depth)
    (resolved : graph.branchTargets branch = .ok targets) (stops : ¬branch.fallsThrough = true) :
    RoundEnd graph start (targets.foldl (fun search target =>
        search.visit target (depth - branch.stackPops + branch.returnAddressSlots)) search)
      position depth := by
  obtain ⟨jumped, targetsSeen⟩ := handled.jumps entry fits resolved
  refine ⟨jumped.extended, jumped.invariant,
    (graph.depthAfter_le_of_branch entry).trans (jumped.depth_le (.refl _) jumped.invariant),
    fun target targetDepth step => ?_⟩
  rcases step.of_branch entry resolved with covers | member | ⟨falls, _⟩
  · exact jumped.handler_seen (.refl _) step covers
  · exact targetsSeen target member step.lt_size
  · exact absurd falls stops

end Handled

/-- One round at a found position hands on a search that extends the one it started from, keeps
the invariant, and has settled the position. The hypotheses are the ones of the main theorem,
read at the reached position. -/
theorem advance_settles (invariant : Invariant graph start [position])
    (found : start.depths[position]? = some (some depth)) (fits : graph.popsAt position ≤ depth)
    (placed : ∀ branch, graph.entries[position]? = some (.branch branch) →
      ∀ label ∈ branch.targets, label ∈ graph.positions) :
    ∃ next, advance graph position start = .ok next ∧ RoundEnd graph start next position depth := by
  have inside : position < graph.size := invariant.size ▸ (Array.getElem?_eq_some_iff.mp found).1
  have handled := Handled.of_found invariant found
  have depthFound : (start.depths[position]?.join).getD 0 = depth := by simp [found]
  unfold advance
  rw [depthFound]
  generalize (graph.covering position).foldl (fun search target => search.visit target 1) start =
    handledSearch at handled ⊢
  -- the rest of the round is decided by the kind of the entry
  cases entry : graph.entries[position]? with
  | none => exact absurd (Array.getElem?_eq_none_iff.mp entry) (Nat.not_le.mpr inside)
  | some entry' =>
    cases entry' with
    | label label => exact ⟨_, rfl, handled.label entry⟩
    | instruction instruction =>
      dsimp only
      split
      · exact ⟨_, rfl, handled.ret entry⟩
      · rename_i notRet
        exact ⟨_, rfl, handled.instruction entry notRet fits⟩
    | branch branch =>
      have fits : branch.stackPops ≤ depth := by
        simpa only [FlowGraph.popsAt, entry] using fits
      obtain ⟨targets, resolved⟩ := FlowGraph.branchTargets_ok (placed branch entry)
      simp only [resolved, bind, Except.bind]
      split
      · rename_i falls
        exact ⟨_, rfl, handled.fallThrough entry fits resolved falls⟩
      · rename_i stops
        exact ⟨_, rfl, handled.stop entry fits resolved stops⟩

/-- The search before its first visit keeps the invariant: nothing is found yet. -/
theorem Invariant.empty (graph : FlowGraph) :
    Invariant graph ⟨Array.replicate graph.size none, [], 0⟩ [] := by
  have unfound : ∀ position depth : Nat,
      (Array.replicate graph.size (none : Option Nat))[position]? ≠ some (some depth) := by
    intro position depth
    rw [Array.getElem?_replicate]
    split <;> simp
  exact ⟨Array.size_replicate, fun position depth found => absurd found (unfound position depth),
    fun _ member => absurd member List.not_mem_nil, List.nodup_nil, Set.mem_insert _ _,
    fun position depth found => absurd found (unfound position depth),
    fun position depth found => absurd found (unfound position depth)⟩

/-- A round keeps the invariant, keeps every position found, and leaves one position fewer to
look at. -/
theorem Invariant.advance {search : DepthSearch} {position : Nat} {rest : List Nat}
    (invariant : Invariant graph search []) (queued : search.pending = position :: rest)
    (noUnderflow : ∀ position depth, graph.Reaches position depth → graph.popsAt position ≤ depth)
    (targetsPlaced : ∀ position depth branch, graph.Reaches position depth →
      graph.entries[position]? = some (.branch branch) →
        ∀ label ∈ branch.targets, label ∈ graph.positions) :
    ∃ next, advance graph position { search with pending := rest } = .ok next ∧
      Invariant graph next [] ∧ next.remaining + 1 = search.remaining ∧
      ∀ other, search.Seen other → next.Seen other := by
  obtain ⟨depth, found⟩ := invariant.pendingSeen position (queued ▸ List.mem_cons_self)
  have reach := invariant.reached position depth found
  obtain ⟨next, advanced, extended, nextInvariant, settled⟩ :=
    advance_settles (invariant.pop queued) found (noUnderflow position depth reach)
      fun branch entry => targetsPlaced position depth branch reach entry
  have notPending : position ∉ rest := by
    have nodup := invariant.nodup
    rw [queued] at nodup
    exact (List.nodup_cons.mp nodup).1
  refine ⟨next, advanced, nextInvariant.finish extended found notPending settled, ?_,
    fun other seen => (show Seen { search with pending := rest } other from seen).extend extended⟩
  rw [extended.remaining]
  simp only [remaining, queued, List.length_cons]
  omega

/-- Rounds enough for every position still to look at bring the search to its end with the
invariant, and keep every position found. -/
theorem run_completes
    (noUnderflow : ∀ position depth, graph.Reaches position depth → graph.popsAt position ≤ depth)
    (targetsPlaced : ∀ position depth branch, graph.Reaches position depth →
      graph.entries[position]? = some (.branch branch) →
        ∀ label ∈ branch.targets, label ∈ graph.positions) :
    ∀ (rounds : Nat) (search : DepthSearch), Invariant graph search [] →
      search.remaining < rounds →
      ∃ final : DepthSearch, run graph rounds search = .ok final.deepest ∧
        Invariant graph final [] ∧ final.pending = [] ∧
        ∀ position, search.Seen position → final.Seen position
  | 0, _, _, enough => absurd enough (Nat.not_lt_zero _)
  | rounds + 1, search, invariant, enough => by
    cases queued : search.pending with
    | nil => exact ⟨search, run_succ_of_nil graph rounds search queued, invariant, queued,
        fun _ => id⟩
    | cons position rest =>
      obtain ⟨next, advanced, nextInvariant, fewer, kept⟩ :=
        invariant.advance queued noUnderflow targetsPlaced
      obtain ⟨final, ran, finalInvariant, done, keptAfter⟩ :=
        run_completes noUnderflow targetsPlaced rounds next nextInvariant (by omega)
      refine ⟨final, ?_, finalInvariant, done, fun other seen => keptAfter other (kept other seen)⟩
      rw [run_succ_of_cons graph rounds search queued, advanced]
      exact ran

/-- At the end of the search every entry control reaches has been found, with the one depth it
is reached with. -/
theorem Invariant.found_of_reaches {final : DepthSearch} (invariant : Invariant graph final [])
    (done : final.pending = []) (startSeen : 0 < graph.size → final.Seen 0)
    (consistent : ∀ position depth depth', graph.Reaches position depth →
      graph.Reaches position depth' → depth = depth')
    {position depth : Nat} (reach : graph.Reaches position depth) :
    final.depths[position]? = some (some depth) := by
  refine reach.mem_of_closed (fun here => final.depths[here.1]? = some (some here.2)) ?_ ?_
  · obtain ⟨startDepth, found⟩ := startSeen reach.1
    rw [found, consistent 0 startDepth 0 (invariant.reached 0 startDepth found) ⟨reach.1, .refl⟩]
  · rintro ⟨here, hereDepth⟩ ⟨there, thereDepth⟩ found step
    -- the entry one step on was found by the settled entry before it, with the depth the step
    -- gives it since control reaches it with one depth only
    obtain ⟨foundDepth, foundThere⟩ := (invariant.settled here hereDepth found
      (by rw [done]; exact List.not_mem_nil) List.not_mem_nil).2 there thereDepth step
    have reachThere := (invariant.reached here hereDepth found).step step
    rw [foundThere, consistent there foundDepth thereDepth
      (invariant.reached there foundDepth foundThere) reachThere]

end Round

end DepthSearch

open DepthSearch in
/-- The deepest stack of a body whose flow graph is built, in which control reaches every entry
with one depth only, never pops more than the stack holds, and jumps only to placed labels: the
greatest depth before or after an entry control reaches, zero for an empty body. -/
theorem maxStack_is_greatest_reached_depth {body : Body} {graph : FlowGraph}
    (built : FlowGraph.ofBody body = .ok graph)
    (consistent : ∀ position depth depth', graph.Reaches position depth →
      graph.Reaches position depth' → depth = depth')
    (noUnderflow : ∀ position depth, graph.Reaches position depth → graph.popsAt position ≤ depth)
    (targetsPlaced : ∀ position depth branch, graph.Reaches position depth →
      graph.entries[position]? = some (.branch branch) →
        ∀ label ∈ branch.targets, label ∈ graph.positions) :
    ∃ deepest, body.maxStack = .ok deepest ∧ IsGreatest (insert 0 graph.reachedDepths) deepest := by
  have initialInvariant : Invariant graph
      (DepthSearch.visit ⟨Array.replicate graph.size none, [], 0⟩ 0 0) [] :=
    (Invariant.empty graph).visit fun inside => ⟨inside, .refl⟩
  have initialRemaining :
      (DepthSearch.visit ⟨Array.replicate graph.size none, [], 0⟩ 0 0).remaining <
        graph.size + 1 := by
    rw [remaining_visit]
    simp [remaining]
  obtain ⟨final, ran, invariant, done, kept⟩ :=
    run_completes noUnderflow targetsPlaced _ _ initialInvariant initialRemaining
  have startSeen : 0 < graph.size → final.Seen 0 := fun nonempty =>
    kept 0 (seen_visit_self _ 0 (by simpa using nonempty))
  refine ⟨final.deepest, ?_, invariant.attained, ?_⟩
  · simp only [Body.maxStack, built, bind, Except.bind]
    exact ran
  · rintro slots (rfl | ⟨position, depth, reach, before | after⟩)
    · exact Nat.zero_le _
    · rw [before]
      exact invariant.below position depth
        (invariant.found_of_reaches done startSeen consistent reach)
    · rw [after]
      exact (invariant.settled position depth
        (invariant.found_of_reaches done startSeen consistent reach)
        (by rw [done]; exact List.not_mem_nil) List.not_mem_nil).1


/-- A body that pushes the null reference, pops it and returns. -/
def pushPop : Body :=
  { entries := #[.instruction .aconstNull, .instruction (.stack .pop), .branch .returnVoid] }

/-- The flow graph of `pushPop`: no labels, no handlers. -/
def pushPopGraph : FlowGraph := ⟨pushPop.entries, {}, []⟩

/-- Control runs through the three entries of `pushPop` in order, with the null reference on the
stack only before the `pop`. -/
theorem pushPopGraph_reaches {position depth : Nat} (reach : pushPopGraph.Reaches position depth) :
    (position = 0 ∧ depth = 0) ∨ (position = 1 ∧ depth = 1) ∨ (position = 2 ∧ depth = 0) := by
  refine reach.mem_of_closed (fun here => (here.1 = 0 ∧ here.2 = 0) ∨ (here.1 = 1 ∧ here.2 = 1) ∨
    (here.1 = 2 ∧ here.2 = 0)) (.inl ⟨rfl, rfl⟩) ?_
  rintro ⟨here, hereDepth⟩ ⟨there, thereDepth⟩ reached step
  -- each entry has one kind, so every step but the one its kind allows is ruled out by `found`
  rcases reached with ⟨rfl, rfl⟩ | ⟨rfl, rfl⟩ | ⟨rfl, rfl⟩ <;> cases step with
  | handler covers => cases covers
  | label found => cases found
  | instruction found => cases found <;> decide
  | jump found _ resolved member => cases found <;> cases resolved <;> cases member
  | fallThrough found _ falls => cases found <;> cases falls

theorem pushPop_maxStack_is_greatest_reached_depth :
    ∃ deepest, pushPop.maxStack = .ok deepest ∧
      IsGreatest (insert 0 pushPopGraph.reachedDepths) deepest :=
  maxStack_is_greatest_reached_depth rfl
    (fun position depth depth' reach reach' => by
      rcases pushPopGraph_reaches reach with ⟨rfl, rfl⟩ | ⟨rfl, rfl⟩ | ⟨rfl, rfl⟩ <;>
        rcases pushPopGraph_reaches reach' with ⟨same, rfl⟩ | ⟨same, rfl⟩ | ⟨same, rfl⟩ <;> omega)
    (fun position depth reach => by
      rcases pushPopGraph_reaches reach with ⟨rfl, rfl⟩ | ⟨rfl, rfl⟩ | ⟨rfl, rfl⟩ <;> decide)
    (fun position depth branch reach found label member => by
      rcases pushPopGraph_reaches reach with ⟨rfl, rfl⟩ | ⟨rfl, rfl⟩ | ⟨rfl, rfl⟩ <;> cases found
      cases member)

/-- A body whose one entry jumps to a label that is never placed. -/
def unplacedJump : Body := { entries := #[.branch (.goto ⟨5⟩)] }

/-- The flow graph of `unplacedJump` is built, since building it looks at the handlers' labels
only; control reaches its one entry with an empty stack and nothing else, and the jump pops
nothing; still the deepest stack is not computed. -/
theorem unplacedJump_maxStack_fails :
    FlowGraph.ofBody unplacedJump = .ok ⟨unplacedJump.entries, {}, []⟩ ∧
      (∀ position depth, FlowGraph.Reaches ⟨unplacedJump.entries, {}, []⟩ position depth →
        position = 0 ∧ depth = 0) ∧
      FlowGraph.popsAt ⟨unplacedJump.entries, {}, []⟩ 0 = 0 ∧
      unplacedJump.maxStack = .error (.unplacedLabel ⟨5⟩) := by
  refine ⟨rfl, fun position depth reach => ?_, rfl, by cbv⟩
  have unplaced : FlowGraph.branchTargets ⟨unplacedJump.entries, {}, []⟩ (.goto ⟨5⟩) =
      .error (.unplacedLabel ⟨5⟩) := by
    simp only [FlowGraph.branchTargets, Branch.targets, List.mapM_cons, FlowGraph.labelPosition,
      Std.HashMap.getElem?_empty]
    rfl
  refine reach.mem_of_closed (fun here => here.1 = 0 ∧ here.2 = 0) ⟨rfl, rfl⟩ ?_
  rintro ⟨here, hereDepth⟩ ⟨there, thereDepth⟩ ⟨rfl, rfl⟩ step
  -- the target's label is not placed, so the jump has no targets to step to
  cases step with
  | handler covers => cases covers
  | label found => cases found
  | instruction found => cases found
  | jump found _ resolved =>
    cases found
    rw [unplaced] at resolved
    cases resolved
  | fallThrough found _ falls => cases found; cases falls

end ClassKit
