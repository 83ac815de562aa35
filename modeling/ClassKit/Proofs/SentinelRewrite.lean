import ClassKit.Patch.Sentinel
import ClassKit.Error
import Mathlib.Data.List.Chain

/-!
# Branches on the sentinel are undone all or nothing

`Body.simplifySentinel` plans its edits in two passes over a body and makes them only at the
end. Either a local copy of the sentinel is used in a way the pass does not understand, and the
body comes back exactly as it was, with a last problem saying so; or the body is rewritten
region by region (`SentinelRegion`): a load of the sentinel branched on becomes a `goto`, a load
stored into a local goes together with the store, a load of such a local branched on becomes a
`goto`, and every other entry, labels included, stays where it was. No store, load or increment
of a local holding the sentinel is left (`simplifySentinel_all_or_nothing`).

A rewritten region leaves the operand stack as it found it when the sentinel takes one stack
slot, as a `boolean` does. A `long` or `double` sentinel pushes two slots, so a region that
loads it drops one slot more than the `goto` it becomes (`wideSentinel_changes_stack_depth`).

The proof goes through the plan: `SentinelPlan` says which positions the planned edits drop and
which branches they make unconditional, in terms of the entries around each position; the
regions are then read off the body from left to right (`SentinelPlan.regions_from`).
-/

namespace ClassKit

/-! ## Regions of a body -/

namespace Entry

/-- Operand stack slots an entry leaves behind: those it pushes less those it pops. -/
def stackChange : Entry → Int
  | label _ => 0
  | instruction plain => (plain.stackEffect.2 : Int) - plain.stackEffect.1
  | branch jump => -(jump.stackPops : Int)

/-- Whether the entry stores, loads or increments the `int` local `slot`. -/
def touchesIntSlot (slot : Nat) : Entry → Bool
  | instruction (.store .int stored) => stored.toNat == slot
  | instruction (.load .int loaded) => loaded.toNat == slot
  | instruction (.iinc incremented _) => incremented.toNat == slot
  | _ => false

/-- The entry with a comparison against zero made unconditional. -/
def unconditional : Entry → Entry
  | branch (.ifZero _ target) => branch (.goto target)
  | entry => entry

end Entry

/-- Operand stack slots a straight run of entries leaves behind. -/
def netStackChange : List Entry → Int
  | [] => 0
  | entry :: rest => entry.stackChange + netStackChange rest

theorem netStackChange_append (first second : List Entry) :
    netStackChange (first ++ second) = netStackChange first + netStackChange second := by
  induction first with
  | nil => simp [netStackChange]
  | cons entry rest ih => simp only [List.cons_append, netStackChange, ih]; omega

/-- A region of a body as the sentinel pass rewrites it. -/
inductive SentinelRegion where
  /-- An entry left where it is. -/
  | kept (entry : Entry)
  /-- `getstatic sentinel; if<condition> target`, which becomes `goto target`. -/
  | direct (condition : Condition) (target : Label)
  /-- `getstatic sentinel; istore slot`, which goes. -/
  | copy (slot : UInt16)
  /-- `iload slot; if<condition> target` on a local holding the sentinel, which becomes
  `goto target`. -/
  | copyBranch (slot : UInt16) (condition : Condition) (target : Label)
  deriving DecidableEq, Repr

namespace SentinelRegion

/-- The entries of the region before the pass. -/
def before (sentinel : FieldRef) : SentinelRegion → List Entry
  | kept entry => [entry]
  | direct condition target =>
    [.instruction (.field .getStatic sentinel), .branch (.ifZero condition target)]
  | copy slot => [.instruction (.field .getStatic sentinel), .instruction (.store .int slot)]
  | copyBranch slot condition target =>
    [.instruction (.load .int slot), .branch (.ifZero condition target)]

/-- The entries of the region after the pass. -/
def after : SentinelRegion → List Entry
  | kept entry => [entry]
  | direct _ target | copyBranch _ _ target => [.branch (.goto target)]
  | copy _ => []

/-- The pass may make the region, given the locals `copied` that hold the sentinel: a kept entry
uses none of them, and a copy or a load branched on is one of them. -/
def Allowed (copied : Nat → Prop) : SentinelRegion → Prop
  | kept entry => ∀ slot, copied slot → entry.touchesIntSlot slot = false
  | direct _ _ => True
  | copy slot | copyBranch slot _ _ => copied slot.toNat

/-- A load of the sentinel is kept only when the next region does not start with a comparison
it could have been folded into. -/
def FollowsUp (sentinel : FieldRef) (first second : SentinelRegion) : Prop :=
  first = kept (.instruction (.field .getStatic sentinel)) →
    ∀ condition target, (second.before sentinel).head? ≠ some (.branch (.ifZero condition target))

/-- With a sentinel of one stack slot, each region leaves the operand stack as the entries it
replaces did. -/
theorem netStackChange_after {sentinel : FieldRef} (oneSlot : sentinel.descriptor.width = 1)
    (region : SentinelRegion) :
    netStackChange region.after = netStackChange (region.before sentinel) := by
  cases region <;>
    simp [after, before, netStackChange, Entry.stackChange, Instruction.stackEffect,
      Branch.stackPops, SlotType.width, oneSlot]

theorem head?_before (sentinel : FieldRef) (region : SentinelRegion) (rest : List SentinelRegion) :
    ((region :: rest).flatMap (before sentinel)).head? = (region.before sentinel).head? := by
  cases region <;> simp [before]

end SentinelRegion

/-- The sentinel is stored into the `int` local `slot` straight from its load somewhere in the
entries. -/
def CopiedSlot (sentinel : FieldRef) (entries : Array Entry) (slot : Nat) : Prop :=
  ∃ position stored, entries[position]? = some (.instruction (.field .getStatic sentinel)) ∧
    entries[position + 1]? = some (.instruction (.store .int stored)) ∧ stored.toNat = slot

/-! ## Folds that only add -/

section Folds

variable {α β γ ε : Type}

/-- A fold whose every step adds to a list `part` of the accumulator what `adds` says of the
item ends with the initial part and what every item adds. -/
theorem mem_foldl_of_adds {step : α → β → α} (part : α → List γ) (adds : β → γ → Prop)
    (delta : ∀ acc item x, x ∈ part (step acc item) ↔ x ∈ part acc ∨ adds item x) :
    ∀ (items : List β) (init : α) (x : γ),
      x ∈ part (items.foldl step init) ↔ x ∈ part init ∨ ∃ item ∈ items, adds item x
  | [], init, x => by simp
  | item :: items, init, x => by
    rw [List.foldl_cons, mem_foldl_of_adds part adds delta items, delta]
    simp only [List.mem_cons, exists_eq_or_imp]
    tauto

/-- The same for a fold that may fail, once it has succeeded. -/
theorem mem_foldlM_of_adds {step : α → β → Except ε α} (part : α → List γ) (adds : β → γ → Prop)
    (delta : ∀ acc item next, step acc item = .ok next →
      ∀ x, x ∈ part next ↔ x ∈ part acc ∨ adds item x) :
    ∀ {items : List β} {init final : α}, items.foldlM step init = .ok final →
      ∀ x, x ∈ part final ↔ x ∈ part init ∨ ∃ item ∈ items, adds item x
  | [], init, final, folded => by
    cases folded
    simp
  | item :: items, init, final, folded => by
    rw [List.foldlM_cons] at folded
    obtain ⟨next, stepped, folded⟩ := bind_eq_ok folded
    intro x
    rw [mem_foldlM_of_adds part adds delta folded, delta init item next stepped]
    simp only [List.mem_cons, exists_eq_or_imp]
    tauto

/-- A fold that may fail has, once it has succeeded, passed the check each step makes of its
item. -/
theorem checked_of_foldlM {step : α → β → Except ε α} (checked : β → Prop)
    (checks : ∀ acc item next, step acc item = .ok next → checked item) :
    ∀ {items : List β} {init final : α}, items.foldlM step init = .ok final →
      ∀ item ∈ items, checked item
  | [], _, _, _ => by simp
  | item :: items, init, final, folded => by
    rw [List.foldlM_cons] at folded
    obtain ⟨next, stepped, folded⟩ := bind_eq_ok folded
    intro other member
    rcases List.mem_cons.mp member with rfl | later
    · exact checks init other next stepped
    · exact checked_of_foldlM checked checks folded other later

end Folds

theorem Entry.loadsField_eq_true {sentinel : FieldRef} {entry : Entry} :
    entry.loadsField sentinel = true ↔ entry = .instruction (.field .getStatic sentinel) := by
  unfold Entry.loadsField
  split <;> simp_all

/-! ## The first pass -/

section Scan

variable (sentinel : FieldRef) (entries : Array Entry)

theorem scanStep_removals (acc : SentinelEdits × List Nat × List String) (pair : Entry × Nat)
    (x : Nat) :
    x ∈ (Body.scanStep entries sentinel acc pair).1.removals ↔ x ∈ acc.1.removals ∨
      x = pair.2 ∧ pair.1.loadsField sentinel = true ∧
        ∃ condition target, entries[pair.2 + 1]? = some (.branch (.ifZero condition target)) := by
  obtain ⟨edits, slots, problems⟩ := acc
  obtain ⟨entry, position⟩ := pair
  unfold Body.scanStep
  cases loads : entry.loadsField sentinel
  · simp [loads]
  · simp only [loads, Bool.not_true, Bool.false_eq_true, ↓reduceIte]
    split <;> simp_all [SentinelEdits.append]

theorem scanStep_gotos (acc : SentinelEdits × List Nat × List String) (pair : Entry × Nat)
    (x : Nat × Label) :
    x ∈ (Body.scanStep entries sentinel acc pair).1.gotos ↔ x ∈ acc.1.gotos ∨
      pair.1.loadsField sentinel = true ∧ ∃ condition target,
        entries[pair.2 + 1]? = some (.branch (.ifZero condition target)) ∧ x = (pair.2 + 1, target) := by
  obtain ⟨edits, slots, problems⟩ := acc
  obtain ⟨entry, position⟩ := pair
  unfold Body.scanStep
  cases loads : entry.loadsField sentinel
  · simp [loads]
  · simp only [loads, Bool.not_true, Bool.false_eq_true, ↓reduceIte]
    split <;> simp_all [SentinelEdits.append]

theorem scanStep_slots (acc : SentinelEdits × List Nat × List String) (pair : Entry × Nat)
    (x : Nat) :
    x ∈ (Body.scanStep entries sentinel acc pair).2.1 ↔ x ∈ acc.2.1 ∨
      pair.1.loadsField sentinel = true ∧ ∃ stored,
        entries[pair.2 + 1]? = some (.instruction (.store .int stored)) ∧ stored.toNat = x := by
  obtain ⟨edits, slots, problems⟩ := acc
  obtain ⟨entry, position⟩ := pair
  unfold Body.scanStep
  cases loads : entry.loadsField sentinel
  · simp [loads]
  · simp only [loads, Bool.not_true, Bool.false_eq_true, ↓reduceIte]
    split
    · simp_all
    · rename_i stored found
      by_cases known : stored.toNat ∈ slots
      · simp only [List.contains_iff_mem, known, ↓reduceIte, found, Option.some.injEq,
          Entry.instruction.injEq, Instruction.store.injEq, true_and, exists_eq_left']
        constructor
        · exact .inl
        · rintro (member | rfl) <;> assumption
      · simp [known, found, eq_comm]
    · rename_i other notBranch notStore found
      simp only [found, Option.some.injEq, true_and]
      constructor
      · exact .inl
      · rintro (member | ⟨stored, rfl, -⟩)
        · exact member
        · exact absurd rfl (notStore stored)
    · simp_all

/-- The first pass edits exactly the loads of the sentinel that the next entry branches on. -/
theorem sentinelScan_removals (x : Nat) :
    x ∈ (Body.sentinelScan entries sentinel).1.removals ↔
      entries[x]? = some (.instruction (.field .getStatic sentinel)) ∧
        ∃ condition target, entries[x + 1]? = some (.branch (.ifZero condition target)) := by
  refine (mem_foldl_of_adds (fun acc : SentinelEdits × List Nat × List String => acc.1.removals) _
    (scanStep_removals sentinel entries) _ _ x).trans ?_
  simp [List.mk_mem_zipIdx_iff_getElem?, Entry.loadsField_eq_true]

theorem sentinelScan_gotos (x : Nat × Label) :
    x ∈ (Body.sentinelScan entries sentinel).1.gotos ↔ ∃ position condition target,
      entries[position]? = some (.instruction (.field .getStatic sentinel)) ∧
        entries[position + 1]? = some (.branch (.ifZero condition target)) ∧
          x = (position + 1, target) := by
  refine (mem_foldl_of_adds (fun acc : SentinelEdits × List Nat × List String => acc.1.gotos) _
    (scanStep_gotos sentinel entries) _ _ x).trans ?_
  simp [List.mk_mem_zipIdx_iff_getElem?, Entry.loadsField_eq_true]

/-- The first pass finds exactly the locals the sentinel is copied into. -/
theorem sentinelScan_slots (slot : Nat) :
    slot ∈ (Body.sentinelScan entries sentinel).2.1 ↔ CopiedSlot sentinel entries slot := by
  refine (mem_foldl_of_adds (fun acc : SentinelEdits × List Nat × List String => acc.2.1) _
    (scanStep_slots sentinel entries) _ _ slot).trans ?_
  unfold CopiedSlot
  simp [List.mk_mem_zipIdx_iff_getElem?, Entry.loadsField_eq_true]

/-! ## Undoing copies into a local -/

/-- An entry leaves `slot` alone when it is no store, load or increment of it. -/
theorem Entry.touchesIntSlot_eq_false_iff {entry : Entry} {slot : Nat} :
    entry.touchesIntSlot slot = false ↔
      (∀ stored, entry = .instruction (.store .int stored) → stored.toNat ≠ slot) ∧
      (∀ loaded, entry = .instruction (.load .int loaded) → loaded.toNat ≠ slot) ∧
      ∀ incremented amount, entry = .instruction (.iinc incremented amount) →
        incremented.toNat ≠ slot := by
  unfold Entry.touchesIntSlot
  split <;> simp_all

theorem Entry.zeroTestTarget?_eq_some {entry : Entry} {target : Label} :
    entry.zeroTestTarget? = some target ↔ ∃ condition, entry = .branch (.ifZero condition target) := by
  unfold Entry.zeroTestTarget?
  split <;> simp_all

/-- What a step undoing copies into `slot` can do. A store into the slot right after a load of
the sentinel drops both; a load of the slot that a comparison with zero follows drops the load
and makes the comparison a `goto`; any other entry leaves the edits as they are, and then it
neither stores, loads nor increments the slot. -/
theorem copyEditStep_eq_ok {slot : Nat} {edits next : SentinelEdits} {entry : Entry}
    {position : Nat}
    (stepped : Body.copyEditStep entries sentinel slot edits (entry, position) = .ok next) :
    (∃ stored previous, entry = .instruction (.store .int stored) ∧ stored.toNat = slot ∧
        position = previous + 1 ∧
        entries[previous]? = some (.instruction (.field .getStatic sentinel)) ∧
        next = { edits with removals := edits.removals ++ [previous, position] }) ∨
      (∃ loaded condition target, entry = .instruction (.load .int loaded) ∧
        loaded.toNat = slot ∧ entries[position + 1]? = some (.branch (.ifZero condition target)) ∧
        next = ⟨edits.removals ++ [position], edits.gotos ++ [(position + 1, target)]⟩) ∨
      (next = edits ∧ entry.touchesIntSlot slot = false) := by
  simp only [Body.copyEditStep] at stepped
  split at stepped
  · rename_i stored
    by_cases same : stored.toNat = slot
    · simp only [same, bne_self_eq_false, Bool.false_eq_true, ↓reduceIte] at stepped
      cases position with
      | zero => cases stepped
      | succ previous =>
        dsimp only at stepped
        split at stepped
        · rename_i loads
          cases stepped
          refine .inl ⟨stored, previous, rfl, same, rfl, ?_, rfl⟩
          cases found : entries[previous]? with
          | none => simp [found] at loads
          | some entry => simpa [found, Entry.loadsField_eq_true] using loads
        · cases stepped
    · simp only [bne_iff_ne, ne_eq, same, not_false_eq_true, ↓reduceIte] at stepped
      cases stepped
      exact .inr (.inr ⟨rfl, by simp [Entry.touchesIntSlot, same]⟩)
  · rename_i loaded
    by_cases same : loaded.toNat = slot
    · simp only [same, bne_self_eq_false, Bool.false_eq_true, ↓reduceIte] at stepped
      split at stepped
      · rename_i target branched
        cases stepped
        obtain ⟨next, found, zeroTest⟩ := Option.bind_eq_some_iff.mp branched
        obtain ⟨condition, rfl⟩ := Entry.zeroTestTarget?_eq_some.mp zeroTest
        exact .inr (.inl ⟨loaded, condition, target, rfl, same, found, rfl⟩)
      · cases stepped
    · simp only [bne_iff_ne, ne_eq, same, not_false_eq_true, ↓reduceIte] at stepped
      cases stepped
      exact .inr (.inr ⟨rfl, by simp [Entry.touchesIntSlot, same]⟩)
  · split at stepped
    · cases stepped
    · rename_i different
      cases stepped
      exact .inr (.inr ⟨rfl, by simpa [Entry.touchesIntSlot] using different⟩)
  · rename_i notStore notLoad notIncrement
    cases stepped
    refine .inr (.inr ⟨rfl, ?_⟩)
    unfold Entry.touchesIntSlot
    split
    · exact absurd rfl (notStore _)
    · exact absurd rfl (notLoad _)
    · exact absurd rfl (notIncrement _ _)
    · rfl

theorem copyEditStep_removals {slot : Nat} {edits next : SentinelEdits} {pair : Entry × Nat}
    (stepped : Body.copyEditStep entries sentinel slot edits pair = .ok next) (x : Nat) :
    x ∈ next.removals ↔ x ∈ edits.removals ∨
      (∃ stored, pair.1 = .instruction (.store .int stored) ∧ stored.toNat = slot) ∧
        (x = pair.2 ∨ x + 1 = pair.2) ∨
      (∃ loaded, pair.1 = .instruction (.load .int loaded) ∧ loaded.toNat = slot) ∧ x = pair.2 := by
  obtain ⟨entry, position⟩ := pair
  rcases copyEditStep_eq_ok sentinel entries stepped with
    ⟨stored, previous, rfl, same, rfl, -, rfl⟩ | ⟨loaded, condition, target, rfl, same, -, rfl⟩ |
      ⟨rfl, untouched⟩
  · simp [same]
    tauto
  · simp [same]
  · obtain ⟨notStore, notLoad, -⟩ := Entry.touchesIntSlot_eq_false_iff.mp untouched
    simp only [iff_self_or]
    rintro (⟨⟨stored, rfl, same⟩, -⟩ | ⟨⟨loaded, rfl, same⟩, -⟩)
    · exact absurd same (notStore stored rfl)
    · exact absurd same (notLoad loaded rfl)

theorem copyEditStep_gotos {slot : Nat} {edits next : SentinelEdits} {pair : Entry × Nat}
    (stepped : Body.copyEditStep entries sentinel slot edits pair = .ok next) (x : Nat × Label) :
    x ∈ next.gotos ↔ x ∈ edits.gotos ∨ ∃ loaded condition target,
      pair.1 = .instruction (.load .int loaded) ∧ loaded.toNat = slot ∧
        entries[pair.2 + 1]? = some (.branch (.ifZero condition target)) ∧
          x = (pair.2 + 1, target) := by
  obtain ⟨entry, position⟩ := pair
  rcases copyEditStep_eq_ok sentinel entries stepped with
    ⟨stored, previous, rfl, same, rfl, -, rfl⟩ | ⟨loaded, condition, target, rfl, same, found, rfl⟩ |
      ⟨rfl, untouched⟩
  · simp
  · simp only [List.mem_append, List.mem_singleton]
    constructor
    · rintro (member | rfl)
      · exact .inl member
      · exact .inr ⟨loaded, condition, target, rfl, same, found, rfl⟩
    · rintro (member | ⟨_, otherCondition, otherTarget, -, -, otherFound, rfl⟩)
      · exact .inl member
      · rw [found] at otherFound
        cases otherFound
        exact .inr rfl
  · obtain ⟨-, notLoad, -⟩ := Entry.touchesIntSlot_eq_false_iff.mp untouched
    simp only [iff_self_or]
    rintro ⟨loaded, _, _, rfl, same, -⟩
    exact absurd same (notLoad loaded rfl)

/-- What one entry must be for the pass undoing copies into `slot` to go on past it. -/
def CopyChecked (sentinel : FieldRef) (entries : Array Entry) (slot : Nat) (pair : Entry × Nat) :
    Prop :=
  (∀ stored, pair.1 = .instruction (.store .int stored) → stored.toNat = slot →
      ∃ previous, pair.2 = previous + 1 ∧
        entries[previous]? = some (.instruction (.field .getStatic sentinel))) ∧
    (∀ loaded, pair.1 = .instruction (.load .int loaded) → loaded.toNat = slot →
      ∃ condition target, entries[pair.2 + 1]? = some (.branch (.ifZero condition target))) ∧
    ∀ incremented amount, pair.1 = .instruction (.iinc incremented amount) → incremented.toNat ≠ slot

theorem copyEditStep_checks {slot : Nat} {edits next : SentinelEdits} {pair : Entry × Nat}
    (stepped : Body.copyEditStep entries sentinel slot edits pair = .ok next) :
    CopyChecked sentinel entries slot pair := by
  obtain ⟨entry, position⟩ := pair
  rcases copyEditStep_eq_ok sentinel entries stepped with
    ⟨stored, previous, rfl, same, rfl, loads, -⟩ | ⟨loaded, condition, target, rfl, same, found, -⟩ |
      ⟨-, untouched⟩
  · refine ⟨fun other isStore _ => ?_, fun _ isLoad => (by cases isLoad),
      fun _ _ isIncrement => (by cases isIncrement)⟩
    cases isStore
    exact ⟨previous, rfl, loads⟩
  · refine ⟨fun _ isStore => (by cases isStore), fun other isLoad _ => ⟨condition, target, found⟩,
      fun _ _ isIncrement => (by cases isIncrement)⟩
  · obtain ⟨notStore, notLoad, notIncrement⟩ := Entry.touchesIntSlot_eq_false_iff.mp untouched
    exact ⟨fun stored isStore same => absurd same (notStore stored isStore),
      fun loaded isLoad same => absurd same (notLoad loaded isLoad), notIncrement⟩

section LocalCopy

variable {slot : Nat} {more : SentinelEdits}

/-- Undoing the copies into a local drops its stores, the loads of the sentinel before them, and
its loads. -/
theorem localCopyEdits_removals (undone : Body.localCopyEdits entries sentinel slot = .ok more)
    (x : Nat) :
    x ∈ more.removals ↔
      (∃ stored, entries[x]? = some (.instruction (.store .int stored)) ∧ stored.toNat = slot) ∨
      (∃ stored, entries[x + 1]? = some (.instruction (.store .int stored)) ∧ stored.toNat = slot) ∨
      ∃ loaded, entries[x]? = some (.instruction (.load .int loaded)) ∧ loaded.toNat = slot := by
  refine (mem_foldlM_of_adds (fun edits : SentinelEdits => edits.removals) _
    (fun _ _ _ stepped => copyEditStep_removals sentinel entries stepped) undone x).trans ?_
  simp only [List.not_mem_nil, false_or, Prod.exists, List.mk_mem_zipIdx_iff_getElem?,
    Array.getElem?_toList]
  constructor
  · rintro ⟨entry, position, found, ⟨⟨stored, rfl, same⟩, rfl | rfl⟩ | ⟨⟨loaded, rfl, same⟩, rfl⟩⟩
    · exact .inl ⟨stored, found, same⟩
    · exact .inr (.inl ⟨stored, found, same⟩)
    · exact .inr (.inr ⟨loaded, found, same⟩)
  · rintro (⟨stored, found, same⟩ | ⟨stored, found, same⟩ | ⟨loaded, found, same⟩)
    · exact ⟨_, x, found, .inl ⟨⟨stored, rfl, same⟩, .inl rfl⟩⟩
    · exact ⟨_, x + 1, found, .inl ⟨⟨stored, rfl, same⟩, .inr rfl⟩⟩
    · exact ⟨_, x, found, .inr ⟨⟨loaded, rfl, same⟩, rfl⟩⟩

/-- Undoing the copies into a local makes each conditional on a load of it unconditional. -/
theorem localCopyEdits_gotos (undone : Body.localCopyEdits entries sentinel slot = .ok more)
    (x : Nat × Label) :
    x ∈ more.gotos ↔ ∃ position loaded condition target,
      entries[position]? = some (.instruction (.load .int loaded)) ∧ loaded.toNat = slot ∧
        entries[position + 1]? = some (.branch (.ifZero condition target)) ∧
          x = (position + 1, target) := by
  refine (mem_foldlM_of_adds (fun edits : SentinelEdits => edits.gotos) _
    (fun _ _ _ stepped => copyEditStep_gotos sentinel entries stepped) undone x).trans ?_
  simp [List.mk_mem_zipIdx_iff_getElem?]

theorem localCopyEdits_checked (undone : Body.localCopyEdits entries sentinel slot = .ok more)
    {position : Nat} {entry : Entry} (found : entries[position]? = some entry) :
    CopyChecked sentinel entries slot (entry, position) :=
  checked_of_foldlM _ (fun _ _ _ stepped => copyEditStep_checks sentinel entries stepped) undone
    (entry, position) (List.mk_mem_zipIdx_iff_getElem?.mpr (by simpa using found))

end LocalCopy

/-- The edits of the first pass, extended slot by slot, gain exactly the edits for each slot. -/
theorem withCopyEdits_eq_ok {edits final : SentinelEdits} {slots : List Nat}
    (combined : Body.withCopyEdits entries sentinel edits slots = .ok final) :
    (∀ x, x ∈ final.removals ↔ x ∈ edits.removals ∨ ∃ slot ∈ slots, ∃ more,
      Body.localCopyEdits entries sentinel slot = .ok more ∧ x ∈ more.removals) ∧
    (∀ x, x ∈ final.gotos ↔ x ∈ edits.gotos ∨ ∃ slot ∈ slots, ∃ more,
      Body.localCopyEdits entries sentinel slot = .ok more ∧ x ∈ more.gotos) ∧
    ∀ slot ∈ slots, ∃ more, Body.localCopyEdits entries sentinel slot = .ok more := by
  -- each step appends the edits for its slot, which must have been found
  have appended : ∀ (acc : SentinelEdits) (slot : Nat) (next : SentinelEdits),
      Body.withCopyEdits entries sentinel acc [slot] = .ok next →
      ∃ more, Body.localCopyEdits entries sentinel slot = .ok more ∧ next = acc.append more := by
    intro acc slot next stepped
    simp only [Body.withCopyEdits, List.foldlM_cons, List.foldlM_nil] at stepped
    cases undone : Body.localCopyEdits entries sentinel slot with
    | error problem => rw [undone] at stepped; cases stepped
    | ok more =>
      rw [undone] at stepped
      cases stepped
      exact ⟨more, rfl, rfl⟩
  unfold Body.withCopyEdits at combined appended
  refine ⟨mem_foldlM_of_adds (fun acc : SentinelEdits => acc.removals) _ ?_ combined,
    mem_foldlM_of_adds (fun acc : SentinelEdits => acc.gotos) _ ?_ combined,
    checked_of_foldlM _ (fun acc slot next stepped => ?_) combined⟩
  · intro acc slot next stepped x
    obtain ⟨more, undone, rfl⟩ := appended acc slot next (by simpa using stepped)
    simp only [SentinelEdits.append, List.mem_append, undone, Except.ok.injEq, exists_eq_left']
  · intro acc slot next stepped x
    obtain ⟨more, undone, rfl⟩ := appended acc slot next (by simpa using stepped)
    simp only [SentinelEdits.append, List.mem_append, undone, Except.ok.injEq, exists_eq_left']
  · obtain ⟨more, undone, -⟩ := appended acc slot next (by simpa using stepped)
    exact ⟨more, undone⟩

end Scan

/-! ## Marking positions -/

theorem getElem?_set!_eq {α : Type} (values : Array α) (index position : Nat) (value : α) :
    (values.set! index value)[position]? =
      if index = position then values[position]?.map fun _ => value else values[position]? := by
  rw [Array.set!_eq_setIfInBounds, Array.getElem?_setIfInBounds]
  split
  · subst index
    split
    · rename_i inside
      simp [Array.getElem?_eq_getElem inside]
    · rename_i outside
      simp [Array.getElem?_eq_none (Nat.le_of_not_lt outside)]
  · rfl

/-- Marking positions one by one marks exactly those positions. -/
theorem foldl_mark (removals : List Nat) (marks : Array Bool) (position : Nat) :
    (removals.foldl (fun marks index => marks.set! index true) marks)[position]? =
      marks[position]?.map fun marked => marked || decide (position ∈ removals) := by
  induction removals generalizing marks with
  | nil => simp
  | cons index rest ih =>
    rw [List.foldl_cons, ih, getElem?_set!_eq]
    split
    · subst index
      cases marks[position]? <;> simp
    · rename_i other
      cases marks[position]? <;> simp [Ne.symm other]

/-! ## Making the edits -/

namespace SentinelEdits

/-- What the edits make of the entry at a position: nothing, the entry made unconditional, or
the entry itself. -/
def fate (edits : SentinelEdits) (pair : Entry × Nat) : Option Entry :=
  if pair.2 ∈ edits.removals then none
  else some (if pair.2 ∈ edits.gotos.map Prod.fst then pair.1.unconditional else pair.1)

/-- Setting `goto`s one by one, each at a comparison with its own target, makes exactly the
comparisons at those positions unconditional. -/
theorem foldl_setGotos {entries : Array Entry} {step : Array Entry → Nat × Label → Array Entry}
    (sets : ∀ values position target,
      step values (position, target) = values.set! position (.branch (.goto target))) :
    ∀ (gotos : List (Nat × Label)) (values : Array Entry) (done : List Nat),
      (∀ goto ∈ gotos, ∃ condition, entries[goto.1]? = some (.branch (.ifZero condition goto.2))) →
      (∀ position, values[position]? = entries[position]?.map fun entry =>
        if position ∈ done then entry.unconditional else entry) →
      ∀ position, (gotos.foldl step values)[position]? = entries[position]?.map fun entry =>
        if position ∈ done ++ gotos.map Prod.fst then entry.unconditional else entry
  | [], values, done, _, current, position => by simpa using current position
  | (index, target) :: rest, values, done, targets, current, position => by
    rw [List.foldl_cons, sets]
    refine foldl_setGotos sets rest _ (done ++ [index]) (fun goto member =>
      targets goto (List.mem_cons_of_mem _ member)) (fun other => ?_) position |>.trans ?_
    · rw [getElem?_set!_eq, current]
      split
      · rename_i same
        subst same
        obtain ⟨condition, found⟩ := targets (index, target) List.mem_cons_self
        simp [found, Entry.unconditional]
      · rename_i different
        simp [Ne.symm different]
    · rw [List.map_cons, List.append_assoc, List.singleton_append]

/-- The edits made: every position listed for removal goes, every position listed for a `goto`
has its comparison made unconditional, and the rest stays in order. -/
theorem apply_toList (edits : SentinelEdits) (entries : Array Entry)
    (targets : ∀ goto ∈ edits.gotos,
      ∃ condition, entries[goto.1]? = some (.branch (.ifZero condition goto.2))) :
    (edits.apply entries).toList = entries.toList.zipIdx.filterMap edits.fate := by
  unfold SentinelEdits.apply
  extract_lets removed replaced
  have marked : ∀ position, removed[position]? =
      entries[position]?.map fun _ => decide (position ∈ edits.removals) := by
    intro position
    simp only [removed, foldl_mark, Array.getElem?_replicate]
    split <;> simp_all
  have retargeted : ∀ position, replaced[position]? = entries[position]?.map fun entry =>
      if position ∈ edits.gotos.map Prod.fst then entry.unconditional else entry := by
    intro position
    simpa using foldl_setGotos (fun _ _ _ => rfl) edits.gotos entries [] targets
      (fun position => by simp) position
  have zipped : replaced.toList.zip removed.toList = entries.toList.zipIdx.map fun pair =>
      (if pair.2 ∈ edits.gotos.map Prod.fst then pair.1.unconditional else pair.1,
        decide (pair.2 ∈ edits.removals)) := by
    refine List.ext_getElem? fun position => Option.ext fun pair => ?_
    rw [List.getElem?_zip_eq_some, Array.getElem?_toList, Array.getElem?_toList, marked,
      retargeted, List.getElem?_map, List.getElem?_zipIdx, Array.getElem?_toList]
    cases entries[position]? <;> simp [Prod.ext_iff, and_comm]
  rw [Array.toList_filterMap, Array.toList_zip, zipped, List.filterMap_map]
  refine List.filterMap_congr fun pair _ => ?_
  simp only [Function.comp_apply, fate]
  split <;> simp_all

end SentinelEdits

/-! ## The plan of a pass that goes through -/

/-- The entry at `position` begins a region rewritten together with the next entry: a load of
the sentinel that the next entry branches on or stores, or a load of a local holding it. -/
def SentinelOpens (sentinel : FieldRef) (entries : Array Entry) (position : Nat) : Prop :=
  entries[position]? = some (.instruction (.field .getStatic sentinel)) ∧
      ((∃ condition target, entries[position + 1]? = some (.branch (.ifZero condition target))) ∨
        ∃ stored, entries[position + 1]? = some (.instruction (.store .int stored))) ∨
    ∃ loaded, entries[position]? = some (.instruction (.load .int loaded)) ∧
      CopiedSlot sentinel entries loaded.toNat

/-- What the edits planned by a pass that did not give up amount to: which positions go, which
comparisons become unconditional, and what the body must look like for the plan to be made. -/
structure SentinelPlan (sentinel : FieldRef) (entries : Array Entry) (edits : SentinelEdits) :
    Prop where
  removed : ∀ position, position ∈ edits.removals ↔ SentinelOpens sentinel entries position ∨
    ∃ stored, entries[position]? = some (.instruction (.store .int stored)) ∧
      CopiedSlot sentinel entries stored.toNat
  unconditional : ∀ position, position ∈ edits.gotos.map Prod.fst ↔ ∃ previous,
    position = previous + 1 ∧ SentinelOpens sentinel entries previous ∧
      ∃ condition target, entries[position]? = some (.branch (.ifZero condition target))
  targets : ∀ goto ∈ edits.gotos,
    ∃ condition, entries[goto.1]? = some (.branch (.ifZero condition goto.2))
  storeAfterLoad : ∀ position stored,
    entries[position]? = some (.instruction (.store .int stored)) →
      CopiedSlot sentinel entries stored.toNat → ∃ previous, position = previous + 1 ∧
        entries[previous]? = some (.instruction (.field .getStatic sentinel))
  loadBranched : ∀ position loaded,
    entries[position]? = some (.instruction (.load .int loaded)) →
      CopiedSlot sentinel entries loaded.toNat →
        ∃ condition target, entries[position + 1]? = some (.branch (.ifZero condition target))
  notIncremented : ∀ (position : Nat) (incremented : UInt16) (amount : Int16),
    entries[position]? = some (.instruction (.iinc incremented amount)) →
      ¬ CopiedSlot sentinel entries incremented.toNat

namespace SentinelPlan

variable {sentinel : FieldRef} {entries : Array Entry} {edits : SentinelEdits}

/-- An entry no region before it reaches into is kept as it is, unless it begins a region. -/
theorem fate_of_not_opens (plan : SentinelPlan sentinel entries edits) {position : Nat}
    {entry : Entry} (found : entries[position]? = some entry)
    (fresh : ∀ previous, position = previous + 1 → ¬ SentinelOpens sentinel entries previous)
    (closed : ¬ SentinelOpens sentinel entries position) :
    edits.fate (entry, position) = some entry := by
  -- a store to a copy follows a load of the sentinel, which would reach into this entry
  have notCopyStore : ¬ ∃ stored, entries[position]? = some (.instruction (.store .int stored)) ∧
      CopiedSlot sentinel entries stored.toNat := by
    rintro ⟨stored, isStore, copied⟩
    obtain ⟨previous, rfl, loads⟩ := plan.storeAfterLoad _ stored isStore copied
    exact fresh previous rfl (.inl ⟨loads, .inr ⟨stored, isStore⟩⟩)
  have kept : position ∉ edits.removals := fun removed =>
    ((plan.removed position).mp removed).elim closed notCopyStore
  have notGoto : position ∉ edits.gotos.map Prod.fst := by
    intro made
    obtain ⟨previous, rfl, opens, -⟩ := (plan.unconditional _).mp made
    exact fresh previous rfl opens
  simp [SentinelEdits.fate, kept, notGoto]

/-- An entry that begins a region is a load, of the sentinel or of a local. -/
theorem loads_of_opens {position : Nat} (opens : SentinelOpens sentinel entries position) :
    entries[position]? = some (.instruction (.field .getStatic sentinel)) ∨
      ∃ loaded, entries[position]? = some (.instruction (.load .int loaded)) := by
  rcases opens with ⟨loads, -⟩ | ⟨loaded, isLoad, -⟩
  · exact .inl loads
  · exact .inr ⟨loaded, isLoad⟩

/-- An entry that begins a region goes. -/
theorem fate_of_opens (plan : SentinelPlan sentinel entries edits) {position : Nat}
    (opens : SentinelOpens sentinel entries position) (entry : Entry) :
    edits.fate (entry, position) = none := by
  simp [SentinelEdits.fate, (plan.removed position).mpr (.inl opens)]

/-- The comparison right after an entry that begins a region becomes unconditional. -/
theorem fate_after_opens (plan : SentinelPlan sentinel entries edits) {position : Nat}
    (opens : SentinelOpens sentinel entries position) {condition : Condition} {target : Label}
    (branches : entries[position + 1]? = some (.branch (.ifZero condition target))) :
    edits.fate (.branch (.ifZero condition target), position + 1) = some (.branch (.goto target)) := by
  have kept : position + 1 ∉ edits.removals := by
    rw [plan.removed]
    rintro (opensNext | ⟨stored, isStore, -⟩)
    · rcases loads_of_opens opensNext with loads | ⟨loaded, isLoad⟩
      · rw [branches] at loads
        cases loads
      · rw [branches] at isLoad
        cases isLoad
    · rw [branches] at isStore
      cases isStore
  have made : position + 1 ∈ edits.gotos.map Prod.fst :=
    (plan.unconditional _).mpr ⟨position, rfl, opens, condition, target, branches⟩
  simp [SentinelEdits.fate, kept, made, Entry.unconditional]

/-- An entry that is neither load begins no region. -/
theorem not_opens_of_entry {position : Nat} {entry : Entry} (found : entries[position]? = some entry)
    (notSentinel : entry ≠ .instruction (.field .getStatic sentinel))
    (notLocal : ∀ loaded, entry ≠ .instruction (.load .int loaded)) :
    ¬ SentinelOpens sentinel entries position := by
  intro opens
  rcases loads_of_opens opens with loads | ⟨loaded, isLoad⟩
  · rw [found] at loads
    exact notSentinel (Option.some.inj loads)
  · rw [found] at isLoad
    exact notLocal loaded (Option.some.inj isLoad)

/-- A store into a local holding the sentinel goes. -/
theorem fate_of_copy_store (plan : SentinelPlan sentinel entries edits) {position : Nat}
    {stored : UInt16} (stores : entries[position]? = some (.instruction (.store .int stored)))
    (copied : CopiedSlot sentinel entries stored.toNat) :
    edits.fate (.instruction (.store .int stored), position) = none := by
  simp [SentinelEdits.fate, (plan.removed position).mpr (.inr ⟨stored, stores, copied⟩)]

/-- An entry that no region reaches into and that begins none uses no local holding the
sentinel. -/
theorem untouched_of_kept (plan : SentinelPlan sentinel entries edits) {position : Nat}
    {entry : Entry} (found : entries[position]? = some entry)
    (fresh : ∀ previous, position = previous + 1 → ¬ SentinelOpens sentinel entries previous)
    (closed : ¬ SentinelOpens sentinel entries position) {slot : Nat}
    (copied : CopiedSlot sentinel entries slot) :
    entry.touchesIntSlot slot = false := by
  unfold Entry.touchesIntSlot
  split
  · rename_i stored
    refine beq_eq_false_iff_ne.mpr fun same => ?_
    subst same
    obtain ⟨previous, rfl, loads⟩ := plan.storeAfterLoad position stored found copied
    exact fresh previous rfl (.inl ⟨loads, .inr ⟨stored, found⟩⟩)
  · rename_i loaded
    refine beq_eq_false_iff_ne.mpr fun same => ?_
    subst same
    exact closed (.inr ⟨loaded, found, copied⟩)
  · rename_i incremented amount
    refine beq_eq_false_iff_ne.mpr fun same => ?_
    subst same
    exact plan.notIncremented position incremented amount found copied
  · rfl

end SentinelPlan

/-- The entries of a body from `start` on split into `regions`, whose rewritten entries are what
the edits leave of them. -/
structure ReadsAs (sentinel : FieldRef) (entries : Array Entry) (edits : SentinelEdits)
    (start : Nat) (regions : List SentinelRegion) : Prop where
  before : entries.toList.drop start = regions.flatMap (SentinelRegion.before sentinel)
  after : ((entries.toList.drop start).zipIdx start).filterMap edits.fate =
    regions.flatMap SentinelRegion.after
  allowed : ∀ region ∈ regions, region.Allowed (CopiedSlot sentinel entries)
  chain : regions.IsChain (SentinelRegion.FollowsUp sentinel)

namespace ReadsAs

variable {sentinel : FieldRef} {entries : Array Entry} {edits : SentinelEdits} {start : Nat}
  {regions : List SentinelRegion}

theorem drop_eq_cons {position : Nat} {entry : Entry} (found : entries[position]? = some entry) :
    entries.toList.drop position = entry :: entries.toList.drop (position + 1) := by
  have inside : position < entries.toList.length := by
    simpa using (Array.getElem?_eq_some_iff.mp found).1
  rw [List.drop_eq_getElem_cons inside]
  congr
  simpa [Array.getElem?_eq_getElem (by simpa using inside)] using found

/-- A region of two entries, the first of which goes, in front of regions read further on. -/
theorem pair (rest : ReadsAs sentinel entries edits (start + 2) regions) (region : SentinelRegion)
    {first second : Entry} (firstAt : entries[start]? = some first)
    (secondAt : entries[start + 1]? = some second)
    (shape : region.before sentinel = [first, second])
    (firstGone : edits.fate (first, start) = none)
    (secondBecomes : (edits.fate (second, start + 1)).toList = region.after)
    (allowed : region.Allowed (CopiedSlot sentinel entries))
    (notKept : ∀ entry, region ≠ .kept entry) :
    ReadsAs sentinel entries edits start (region :: regions) where
  before := by
    rw [drop_eq_cons firstAt, drop_eq_cons secondAt, List.flatMap_cons, shape, rest.before]
    rfl
  after := by
    rw [drop_eq_cons firstAt, drop_eq_cons secondAt, List.zipIdx_cons, List.zipIdx_cons,
      List.filterMap_cons_none firstGone, List.flatMap_cons, ← secondBecomes, ← rest.after]
    cases becomes : edits.fate (second, start + 1) with
    | none => rw [List.filterMap_cons_none becomes]; rfl
    | some entry => rw [List.filterMap_cons_some becomes]; rfl
  allowed := by
    intro other member
    rcases List.mem_cons.mp member with rfl | later
    · exact allowed
    · exact rest.allowed other later
  chain := rest.chain.cons fun _ _ isKept => absurd isKept (notKept _)

/-- An entry kept where it is, in front of regions read further on. -/
theorem kept (rest : ReadsAs sentinel entries edits (start + 1) regions) {entry : Entry}
    (found : entries[start]? = some entry) (stays : edits.fate (entry, start) = some entry)
    (allowed : (SentinelRegion.kept entry).Allowed (CopiedSlot sentinel entries))
    (follows : ∀ next ∈ regions.head?, SentinelRegion.FollowsUp sentinel (.kept entry) next) :
    ReadsAs sentinel entries edits start (.kept entry :: regions) where
  before := by
    rw [drop_eq_cons found, List.flatMap_cons, rest.before]
    rfl
  after := by
    rw [drop_eq_cons found, List.zipIdx_cons, List.filterMap_cons_some stays, List.flatMap_cons,
      ← rest.after]
    rfl
  allowed := by
    intro other member
    rcases List.mem_cons.mp member with rfl | later
    · exact allowed
    · exact rest.allowed other later
  chain := rest.chain.cons follows

end ReadsAs

namespace SentinelPlan

variable {sentinel : FieldRef} {entries : Array Entry} {edits : SentinelEdits}

/-- Reading a body from `start`, where no region before reaches in, the entries from there on
split into regions whose rewritten entries are what the edits leave of them. The induction is
on the entries left; each step takes one region, of one or two entries. -/
theorem regions_from (plan : SentinelPlan sentinel entries edits) :
    ∀ count start, entries.size - start = count →
      (∀ previous, start = previous + 1 → ¬ SentinelOpens sentinel entries previous) →
      ∃ regions, ReadsAs sentinel entries edits start regions := by
  intro count
  induction count using Nat.strong_induction_on with
  | _ count ih =>
  intro start remaining fresh
  by_cases inside : start < entries.size
  swap
  · have emptied : entries.toList.drop start = [] :=
      List.drop_eq_nil_of_le (by rw [Array.length_toList]; exact Nat.le_of_not_lt inside)
    exact ⟨[], by simp [emptied], by simp [emptied], by simp, .nil⟩
  have found : entries[start]? = some entries[start] := Array.getElem?_eq_getElem inside
  by_cases opens : SentinelOpens sentinel entries start
  · -- a region of two entries; the second is a comparison or a store and begins none
    have restFrom : ∀ {second : Entry}, entries[start + 1]? = some second →
        ¬ SentinelOpens sentinel entries (start + 1) →
        ∃ regions, ReadsAs sentinel entries edits (start + 2) regions := by
      intro second secondAt closed
      have secondInside : start + 1 < entries.size := (Array.getElem?_eq_some_iff.mp secondAt).1
      refine ih (entries.size - (start + 2)) (by omega) (start + 2) rfl fun previous same => ?_
      obtain rfl : previous = start + 1 := by omega
      exact closed
    have firstGone := plan.fate_of_opens opens
    rcases id opens with ⟨loads, ⟨condition, target, branches⟩ | ⟨stored, stores⟩⟩ |
      ⟨loaded, isLoad, copied⟩
    · obtain ⟨regions, rest⟩ :=
        restFrom branches (not_opens_of_entry branches (by simp) fun _ => by simp)
      exact ⟨_, rest.pair (.direct condition target) loads branches rfl (firstGone _)
        (by rw [plan.fate_after_opens opens branches]; rfl) trivial fun _ => by simp⟩
    · obtain ⟨regions, rest⟩ :=
        restFrom stores (not_opens_of_entry stores (by simp) fun _ => by simp)
      have copied : CopiedSlot sentinel entries stored.toNat := ⟨start, stored, loads, stores, rfl⟩
      exact ⟨_, rest.pair (.copy stored) loads stores rfl (firstGone _)
        (by rw [plan.fate_of_copy_store stores copied]; rfl) copied fun _ => by simp⟩
    · obtain ⟨condition, target, branches⟩ := plan.loadBranched start loaded isLoad copied
      obtain ⟨regions, rest⟩ :=
        restFrom branches (not_opens_of_entry branches (by simp) fun _ => by simp)
      exact ⟨_, rest.pair (.copyBranch loaded condition target) isLoad branches rfl
        (firstGone _) (by rw [plan.fate_after_opens opens branches]; rfl) copied fun _ => by simp⟩
  · -- an entry kept where it is
    obtain ⟨regions, rest⟩ := ih (entries.size - (start + 1)) (by omega) (start + 1) rfl
      fun previous same => by
        obtain rfl : previous = start := by omega
        exact opens
    refine ⟨_, rest.kept found (plan.fate_of_not_opens found fresh opens)
      (fun slot copied => plan.untouched_of_kept found fresh opens copied) ?_⟩
    -- a kept load of the sentinel is not followed by a comparison, which it would begin
    intro next member isLoad condition target startsWith
    obtain ⟨later, rfl⟩ : ∃ later, regions = next :: later := by
      cases regions with
      | nil => cases member
      | cons first later =>
        cases member
        exact ⟨later, rfl⟩
    have following : entries[start + 1]? = some (.branch (.ifZero condition target)) := by
      rw [← startsWith, ← SentinelRegion.head?_before sentinel next later, ← rest.before,
        List.head?_drop, Array.getElem?_toList]
    have entryLoads : entries[start]? = some (.instruction (.field .getStatic sentinel)) := by
      rw [found, SentinelRegion.kept.inj isLoad]
    exact opens (.inl ⟨entryLoads, .inl ⟨condition, target, following⟩⟩)

end SentinelPlan

/-! ## What the pass returns -/

theorem simplifySentinel_of_error {body : Body} {sentinel : FieldRef} {problem : String}
    (failed : Body.withCopyEdits body.entries sentinel (Body.sentinelScan body.entries sentinel).1
      ((Body.sentinelScan body.entries sentinel).2.1.mergeSort (· ≤ ·)) = .error problem)
    (journal : Journal) :
    ((body.simplifySentinel sentinel).run journal).1 =
      (body, (Body.sentinelScan body.entries sentinel).2.2 ++
        [problem ++ ", leaving the method untouched"]) := by
  unfold Body.simplifySentinel
  dsimp only
  rw [failed]
  rfl

theorem simplifySentinel_of_ok {body : Body} {sentinel : FieldRef} {edits : SentinelEdits}
    (succeeded : Body.withCopyEdits body.entries sentinel (Body.sentinelScan body.entries sentinel).1
      ((Body.sentinelScan body.entries sentinel).2.1.mergeSort (· ≤ ·)) = .ok edits)
    (journal : Journal) :
    ((body.simplifySentinel sentinel).run journal).1 =
      ({ body with entries := edits.apply body.entries },
        (Body.sentinelScan body.entries sentinel).2.2) := by
  unfold Body.simplifySentinel
  dsimp only
  rw [succeeded]
  dsimp only
  split <;> rfl

/-! ## The plan the pass makes -/

section Planning

variable {sentinel : FieldRef} {entries : Array Entry} {final : SentinelEdits}

/-- Whether the pass that undoes copies of the sentinel went through. -/
abbrev CopiesUndone (sentinel : FieldRef) (entries : Array Entry) (final : SentinelEdits) : Prop :=
  Body.withCopyEdits entries sentinel (Body.sentinelScan entries sentinel).1
    ((Body.sentinelScan entries sentinel).2.1.mergeSort (· ≤ ·)) = .ok final

theorem mem_copySlots {slot : Nat} :
    slot ∈ (Body.sentinelScan entries sentinel).2.1.mergeSort (· ≤ ·) ↔
      CopiedSlot sentinel entries slot := by
  rw [List.mem_mergeSort, sentinelScan_slots]

/-- Once the pass went through, every local holding the sentinel passed its checks at every
entry. -/
theorem copyChecked_of_undone (undone : CopiesUndone sentinel entries final) {slot : Nat}
    (copied : CopiedSlot sentinel entries slot) {position : Nat} {entry : Entry}
    (found : entries[position]? = some entry) :
    CopyChecked sentinel entries slot (entry, position) := by
  obtain ⟨-, -, allFound⟩ := withCopyEdits_eq_ok sentinel entries undone
  obtain ⟨more, found'⟩ := allFound slot (mem_copySlots.mpr copied)
  exact localCopyEdits_checked sentinel entries found' found

theorem removed_of_undone (undone : CopiesUndone sentinel entries final) (position : Nat) :
    position ∈ final.removals ↔ SentinelOpens sentinel entries position ∨
      ∃ stored, entries[position]? = some (.instruction (.store .int stored)) ∧
        CopiedSlot sentinel entries stored.toNat := by
  obtain ⟨removals, -, allFound⟩ := withCopyEdits_eq_ok sentinel entries undone
  rw [removals, sentinelScan_removals]
  constructor
  · rintro (⟨loads, condition, target, branches⟩ | ⟨slot, member, more, found, removed⟩)
    · exact .inl (.inl ⟨loads, .inl ⟨condition, target, branches⟩⟩)
    have copied := mem_copySlots.mp member
    rcases (localCopyEdits_removals sentinel entries found position).mp removed with
      ⟨stored, stores, rfl⟩ | ⟨stored, stores, rfl⟩ | ⟨loaded, isLoad, rfl⟩
    · exact .inr ⟨stored, stores, copied⟩
    · obtain ⟨previous, same, loads⟩ :=
        (copyChecked_of_undone undone copied stores).1 stored rfl rfl
      obtain rfl : previous = position := by omega
      exact .inl (.inl ⟨loads, .inr ⟨stored, stores⟩⟩)
    · exact .inl (.inr ⟨loaded, isLoad, copied⟩)
  · rintro ((⟨loads, ⟨condition, target, branches⟩ | ⟨stored, stores⟩⟩ |
      ⟨loaded, isLoad, copied⟩) | ⟨stored, stores, copied⟩)
    · exact .inl ⟨loads, condition, target, branches⟩
    all_goals right
    · have copied : CopiedSlot sentinel entries stored.toNat := ⟨position, stored, loads, stores, rfl⟩
      obtain ⟨more, found⟩ := allFound _ (mem_copySlots.mpr copied)
      exact ⟨_, mem_copySlots.mpr copied, more, found,
        (localCopyEdits_removals sentinel entries found position).mpr (.inr (.inl ⟨stored, stores, rfl⟩))⟩
    · obtain ⟨more, found⟩ := allFound _ (mem_copySlots.mpr copied)
      exact ⟨_, mem_copySlots.mpr copied, more, found,
        (localCopyEdits_removals sentinel entries found position).mpr (.inr (.inr ⟨loaded, isLoad, rfl⟩))⟩
    · obtain ⟨more, found⟩ := allFound _ (mem_copySlots.mpr copied)
      exact ⟨_, mem_copySlots.mpr copied, more, found,
        (localCopyEdits_removals sentinel entries found position).mpr (.inl ⟨stored, stores, rfl⟩)⟩

theorem gotos_of_undone (undone : CopiesUndone sentinel entries final) (goto : Nat × Label) :
    goto ∈ final.gotos ↔ ∃ previous condition target, goto = (previous + 1, target) ∧
      SentinelOpens sentinel entries previous ∧
        entries[previous + 1]? = some (.branch (.ifZero condition target)) := by
  obtain ⟨-, gotos, allFound⟩ := withCopyEdits_eq_ok sentinel entries undone
  rw [gotos, sentinelScan_gotos]
  constructor
  · rintro (⟨previous, condition, target, loads, branches, rfl⟩ | ⟨slot, member, more, found, made⟩)
    · exact ⟨previous, condition, target, rfl, .inl ⟨loads, .inl ⟨condition, target, branches⟩⟩,
        branches⟩
    obtain ⟨previous, loaded, condition, target, isLoad, rfl, branches, rfl⟩ :=
      (localCopyEdits_gotos sentinel entries found goto).mp made
    exact ⟨previous, condition, target, rfl, .inr ⟨loaded, isLoad, mem_copySlots.mp member⟩,
      branches⟩
  · rintro ⟨previous, condition, target, rfl, ⟨loads, -⟩ | ⟨loaded, isLoad, copied⟩, branches⟩
    · exact .inl ⟨previous, condition, target, loads, branches, rfl⟩
    · obtain ⟨more, found⟩ := allFound _ (mem_copySlots.mpr copied)
      exact .inr ⟨_, mem_copySlots.mpr copied, more, found,
        (localCopyEdits_gotos sentinel entries found _).mpr
          ⟨previous, loaded, condition, target, isLoad, rfl, branches, rfl⟩⟩

/-- A pass that went through planned exactly the edits `SentinelPlan` describes. -/
theorem sentinelPlan_of_undone (undone : CopiesUndone sentinel entries final) :
    SentinelPlan sentinel entries final where
  removed := removed_of_undone undone
  unconditional position := by
    simp only [List.mem_map, Prod.exists, exists_and_right, exists_eq_right, gotos_of_undone undone,
      Prod.mk.injEq]
    constructor
    · rintro ⟨target, previous, condition, _, ⟨rfl, rfl⟩, opens, branches⟩
      exact ⟨previous, rfl, opens, condition, target, branches⟩
    · rintro ⟨previous, rfl, opens, condition, target, branches⟩
      exact ⟨target, previous, condition, target, ⟨rfl, rfl⟩, opens, branches⟩
  targets goto made := by
    obtain ⟨previous, condition, target, rfl, -, branches⟩ := (gotos_of_undone undone goto).mp made
    exact ⟨condition, branches⟩
  storeAfterLoad position stored stores copied :=
    (copyChecked_of_undone undone copied stores).1 stored rfl rfl
  loadBranched position loaded isLoad copied :=
    (copyChecked_of_undone undone copied isLoad).2.1 loaded rfl rfl
  notIncremented position incremented amount increments copied :=
    (copyChecked_of_undone undone copied increments).2.2 incremented amount rfl rfl

end Planning

/-! ## The pass is all or nothing -/

/-- No entry a region leaves uses a local holding the sentinel. -/
theorem SentinelRegion.untouched_after {copied : Nat → Prop} {region : SentinelRegion}
    (allowed : region.Allowed copied) {entry : Entry} (member : entry ∈ region.after) {slot : Nat}
    (holds : copied slot) : entry.touchesIntSlot slot = false := by
  cases region with
  | kept kept =>
    obtain rfl := List.mem_singleton.mp member
    exact allowed slot holds
  | direct _ target | copyBranch _ _ target =>
    obtain rfl := List.mem_singleton.mp member
    rfl
  | copy _ => cases member

/-- Turning branches on the sentinel into `goto`s is all or nothing. Either the pass gives up,
leaves the body exactly as it was and says so in its last problem; or it rewrites the body
region by region, keeping every other entry, labels included, where it was, so that no store,
load or increment of a local holding the sentinel is left, and each rewritten region leaves the
operand stack as before when the sentinel takes one stack slot. -/
theorem simplifySentinel_all_or_nothing (body : Body) (sentinel : FieldRef) (journal : Journal) :
    let outcome := ((body.simplifySentinel sentinel).run journal).1
    (outcome.1 = body ∧
      ∃ reason, outcome.2.getLast? = some (reason ++ ", leaving the method untouched")) ∨
    (outcome.1.handlers = body.handlers ∧
      (∀ entry ∈ outcome.1.entries.toList, ∀ slot, CopiedSlot sentinel body.entries slot →
        entry.touchesIntSlot slot = false) ∧
      ∃ regions : List SentinelRegion,
        body.entries.toList = regions.flatMap (SentinelRegion.before sentinel) ∧
        outcome.1.entries.toList = regions.flatMap SentinelRegion.after ∧
        (∀ region ∈ regions, region.Allowed (CopiedSlot sentinel body.entries)) ∧
        regions.IsChain (SentinelRegion.FollowsUp sentinel) ∧
        (sentinel.descriptor.width = 1 → ∀ region ∈ regions,
          netStackChange region.after = netStackChange (region.before sentinel))) := by
  intro outcome
  cases undone : Body.withCopyEdits body.entries sentinel (Body.sentinelScan body.entries sentinel).1
    ((Body.sentinelScan body.entries sentinel).2.1.mergeSort (· ≤ ·)) with
  | error problem =>
    left
    simp only [outcome, simplifySentinel_of_error undone, List.getLast?_append, List.getLast?_singleton]
    exact ⟨trivial, problem, rfl⟩
  | ok final =>
    right
    have plan := sentinelPlan_of_undone undone
    obtain ⟨regions, reads⟩ := plan.regions_from _ 0 rfl fun previous same => by omega
    have entriesAfter : (final.apply body.entries).toList = regions.flatMap SentinelRegion.after := by
      rw [SentinelEdits.apply_toList final body.entries plan.targets]
      simpa using reads.after
    simp only [outcome, simplifySentinel_of_ok undone, entriesAfter]
    refine ⟨trivial, fun entry member slot copied => ?_, regions, by simpa using reads.before, rfl,
      reads.allowed, reads.chain, fun oneSlot region _ => region.netStackChange_after oneSlot⟩
    obtain ⟨region, regionMember, entryMember⟩ := List.mem_flatMap.mp member
    exact SentinelRegion.untouched_after (reads.allowed region regionMember) entryMember copied

theorem netStackChange_flatMap {sentinel : FieldRef} {regions : List SentinelRegion}
    (balanced : ∀ region ∈ regions,
      netStackChange region.after = netStackChange (region.before sentinel)) :
    netStackChange (regions.flatMap SentinelRegion.after) =
      netStackChange (regions.flatMap (SentinelRegion.before sentinel)) := by
  induction regions with
  | nil => rfl
  | cons region rest ih =>
    rw [List.flatMap_cons, List.flatMap_cons, netStackChange_append, netStackChange_append,
      balanced region List.mem_cons_self, ih fun other member => balanced other (List.mem_cons_of_mem _ member)]

/-- A sentinel of type `long`, named like the default one. -/
def wideSentinel : FieldRef := ⟨⟨"client"⟩, ⟨"ob"⟩, .base .long⟩

/-- A load of the wide sentinel branched on. -/
def wideSentinelBody : Body where
  entries := #[.instruction (.field .getStatic wideSentinel), .branch (.ifZero .eq ⟨0⟩),
    .label ⟨0⟩, .branch .returnVoid]

/-- With a `long` sentinel the pass still turns the branch on it into a `goto`, reports nothing,
and leaves one stack slot fewer: no split of the body into regions that each keep the stack
depth yields what it writes. -/
theorem wideSentinel_changes_stack_depth :
    let outcome := ((wideSentinelBody.simplifySentinel wideSentinel).run {}).1
    outcome.1.entries.toList = [.branch (.goto ⟨0⟩), .label ⟨0⟩, .branch .returnVoid] ∧
    outcome.2 = [] ∧
    ¬ ∃ regions : List SentinelRegion,
      wideSentinelBody.entries.toList = regions.flatMap (SentinelRegion.before wideSentinel) ∧
      outcome.1.entries.toList = regions.flatMap SentinelRegion.after ∧
      ∀ region ∈ regions,
        netStackChange region.after = netStackChange (region.before wideSentinel) := by
  intro outcome
  have written : outcome.1.entries.toList =
      [.branch (.goto ⟨0⟩), .label ⟨0⟩, .branch .returnVoid] := by
    simp only [outcome]
    decide +kernel
  refine ⟨written, by simp only [outcome]; decide +kernel, ?_⟩
  rintro ⟨regions, before, after, balanced⟩
  have depths := netStackChange_flatMap balanced
  rw [← before, ← after, written] at depths
  revert depths
  decide

end ClassKit
