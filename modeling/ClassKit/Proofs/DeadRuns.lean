import ClassKit.Patch.DeadStores
import ClassKit.Proofs.SentinelRewrite
import Mathlib

/-!
# Dead runs of int arithmetic

The dead-store pass (`Body.removeDeadStores`) takes out stretches of `int` arithmetic whose
result goes into a local that no `iload` or `iinc` reads. Whether that keeps what the method
does is a question about running the removed code, so this module gives the arithmetic the pass
may remove its meaning: an `int` machine (`runInts`) with the JVM's wrap-around sums, truncating
division and the `ArithmeticException` of a zero divisor.

`ReplacesTop read taken given block` says how a block uses the operand stack whatever lies below
the values it works on: it takes the top `taken` values and puts `given` in their place, never
looking further down, and writes no local that `read` holds; or it divides by zero, again
whatever lies below. A removed block is one with `taken = given = 0`. The step lemma
`replacesTop_of_deadMath` gives each removable instruction its stack effect as such a fact, and
`ReplacesTop.append` composes them, which is how the pass's count of values still needed turns
into a statement about the whole run.

Main statement, `removeDeadStores_removes_dead_runs`: the pass's result is `count` removals of a
run away from the original list (`RemovesRuns`), each run a stretch of the list of its time that
ends with a store to an unread local; and the original list splits into kept entries and removed
blocks (`BodyPiece`), each block dead arithmetic that leaves the operand stack as it found it and
changes only unread locals, or throws. The removed code can throw: a division by zero stored
into an unread local goes (`removeDeadStores_drops_zero_division`), so the pass can remove an
exception the method would raise.
-/

namespace ClassKit

/-! ## The int machine -/

/-- Operand stack (top first) and local slots of a method computing with `int`s only. -/
structure IntFrame where
  stack : List Int32
  locals : Nat → Int32

/-- How running `int` code ends: with a frame, with the `ArithmeticException` of a zero divisor,
or stuck on an instruction outside `int` arithmetic or on a stack too shallow for it. -/
inductive IntOutcome where
  | done (frame : IntFrame)
  | divideByZero
  | stuck

namespace IntOutcome

/-- Continues a finished run with `next`; a run that did not finish stays as it ended. -/
def andThen (outcome : IntOutcome) (next : IntFrame → IntOutcome) : IntOutcome :=
  match outcome with
  | done frame => next frame
  | divideByZero => divideByZero
  | stuck => stuck

@[simp] theorem done_andThen (frame : IntFrame) (next : IntFrame → IntOutcome) :
    (done frame).andThen next = next frame := rfl

@[simp] theorem divideByZero_andThen (next : IntFrame → IntOutcome) :
    divideByZero.andThen next = divideByZero := rfl

end IntOutcome

namespace Instruction

/-- One instruction of `int` arithmetic as the JVM runs it: `iadd` and `isub` wrap around, `idiv`
rounds toward zero (the smallest `int` divided by `-1` is itself), `irem` takes the sign of the
dividend, and both throw on a zero divisor. -/
def runInt (instruction : Instruction) (frame : IntFrame) : IntOutcome :=
  match instruction, frame.stack with
  | load .int slot, values => .done ⟨frame.locals slot.toNat :: values, frame.locals⟩
  | store .int slot, value :: rest => .done ⟨rest, Function.update frame.locals slot.toNat value⟩
  | arith .add .int, right :: left :: rest => .done ⟨(left + right) :: rest, frame.locals⟩
  | arith .sub .int, right :: left :: rest => .done ⟨(left - right) :: rest, frame.locals⟩
  | arith .div .int, right :: left :: rest =>
    if right = 0 then .divideByZero else .done ⟨(left / right) :: rest, frame.locals⟩
  | arith .rem .int, right :: left :: rest =>
    if right = 0 then .divideByZero else .done ⟨(left % right) :: rest, frame.locals⟩
  | bipush value, values => .done ⟨value.toInt32 :: values, frame.locals⟩
  | iconst value, values => .done ⟨Int32.ofInt value.toInt :: values, frame.locals⟩
  | _, _ => .stuck

/-- The instructions the pass may remove, by name. -/
theorem isDeadMath_eq_true {instruction : Instruction} (dead : instruction.isDeadMath = true) :
    (∃ slot, instruction = load .int slot) ∨ (∃ slot, instruction = store .int slot) ∨
      instruction = arith .add .int ∨ instruction = arith .sub .int ∨
      instruction = arith .div .int ∨ instruction = arith .rem .int ∨
      (∃ value, instruction = bipush value) ∨ ∃ value, instruction = iconst value := by
  cases instruction with
  | load type slot => cases type <;> first | exact .inl ⟨slot, rfl⟩ | cases dead
  | store type slot => cases type <;> first | exact .inr (.inl ⟨slot, rfl⟩) | cases dead
  | arith op type => cases op <;> cases type <;> cases dead <;> simp
  | bipush value => exact .inr (.inr (.inr (.inr (.inr (.inr (.inl ⟨value, rfl⟩))))))
  | iconst value => exact .inr (.inr (.inr (.inr (.inr (.inr (.inr ⟨value, rfl⟩))))))
  | _ => cases dead

end Instruction

/-- Runs `int` instructions one after another. -/
def runInts : List Instruction → IntFrame → IntOutcome
  | [], frame => .done frame
  | instruction :: rest, frame => (instruction.runInt frame).andThen (runInts rest)

theorem runInts_append (first second : List Instruction) (frame : IntFrame) :
    runInts (first ++ second) frame = (runInts first frame).andThen (runInts second) := by
  induction first generalizing frame with
  | nil => rfl
  | cons instruction rest ih =>
    simp only [List.cons_append, runInts]
    cases instruction.runInt frame with
    | done next => exact ih next
    | divideByZero => rfl
    | stuck => rfl

/-! ## What a block does to the operand stack -/

section Effects

variable {read : Nat → Prop}

/-- Run on an operand stack whose top `taken` values are any `top`, `block` puts `given` values in
their place, whatever lies below them, and changes no local that `read` holds; or it divides by
zero, whatever lies below. Either way the values below `top` are never looked at. -/
def ReplacesTop (read : Nat → Prop) (taken given : Nat) (block : List Instruction) : Prop :=
  ∀ top : List Int32, top.length = taken → ∀ locals : Nat → Int32,
    (∃ pushed changed, pushed.length = given ∧ (∀ slot, read slot → changed slot = locals slot) ∧
      ∀ below, runInts block ⟨top ++ below, locals⟩ = .done ⟨pushed ++ below, changed⟩) ∨
    ∀ below, runInts block ⟨top ++ below, locals⟩ = .divideByZero

theorem replacesTop_nil : ReplacesTop read 0 0 [] := by
  intro top length locals
  left
  exact ⟨[], locals, rfl, fun _ _ => rfl, fun below => by simp [List.length_eq_zero_iff.mp length,
    runInts]⟩

/-- Two blocks one after the other: the second takes what the first leaves and `c - b` values
more from below. -/
theorem ReplacesTop.append {a b c d : Nat} {first second : List Instruction}
    (takesFirst : ReplacesTop read a b first) (takesSecond : ReplacesTop read c d second)
    (fits : b ≤ c) : ReplacesTop read (a + (c - b)) d (first ++ second) := by
  intro top length locals
  -- the first block works on the top `a` values; the `c - b` under them wait for the second
  obtain ⟨mine, theirs, rfl, mineLength⟩ : ∃ mine theirs, top = mine ++ theirs ∧ mine.length = a :=
    ⟨top.take a, top.drop a, (List.take_append_drop a top).symm, by simp; omega⟩
  have theirsLength : theirs.length = c - b := by simp at length; omega
  rcases takesFirst mine mineLength locals with ⟨pushed, changed, pushedLength, keeps, runs⟩ | traps
  · have handed : (pushed ++ theirs).length = c := by simp; omega
    rcases takesSecond (pushed ++ theirs) handed changed with
      ⟨pushed', changed', pushedLength', keeps', runs'⟩ | traps'
    · left
      refine ⟨pushed', changed', pushedLength', fun slot reads => (keeps' slot reads).trans
        (keeps slot reads), fun below => ?_⟩
      rw [runInts_append, List.append_assoc, runs, IntOutcome.done_andThen, ← List.append_assoc,
        runs']
    · right
      intro below
      rw [runInts_append, List.append_assoc, runs, IntOutcome.done_andThen, ← List.append_assoc,
        traps']
  · right
    intro below
    rw [runInts_append, List.append_assoc, traps, IntOutcome.divideByZero_andThen]

/-- An instruction that pushes one value computed from the locals. -/
theorem replacesTop_push {instruction : Instruction} (value : (Nat → Int32) → Int32)
    (runs : ∀ stack locals, instruction.runInt ⟨stack, locals⟩ = .done ⟨value locals :: stack, locals⟩) :
    ReplacesTop read 0 1 [instruction] := by
  intro top length locals
  obtain rfl := List.length_eq_zero_iff.mp length
  left
  exact ⟨[value locals], locals, rfl, fun _ _ => rfl, fun below => by simp [runInts, runs]⟩

/-- An instruction that replaces the top two values by one computed from them. -/
theorem replacesTop_binary {instruction : Instruction} (op : Int32 → Int32 → Int32)
    (runs : ∀ right left rest locals, instruction.runInt ⟨right :: left :: rest, locals⟩ =
      .done ⟨op left right :: rest, locals⟩) :
    ReplacesTop read 2 1 [instruction] := by
  intro top length locals
  obtain ⟨right, left, rfl⟩ := List.length_eq_two.mp length
  left
  exact ⟨[op left right], locals, rfl, fun _ _ => rfl, fun below => by simp [runInts, runs]⟩

/-- A division: it replaces the top two values by their quotient or remainder, or throws on a
zero divisor. -/
theorem replacesTop_dividing {instruction : Instruction} (op : Int32 → Int32 → Int32)
    (runs : ∀ right left rest locals, instruction.runInt ⟨right :: left :: rest, locals⟩ =
      if right = 0 then .divideByZero else .done ⟨op left right :: rest, locals⟩) :
    ReplacesTop read 2 1 [instruction] := by
  intro top length locals
  obtain ⟨right, left, rfl⟩ := List.length_eq_two.mp length
  by_cases zero : right = 0
  · right
    intro below
    simp [runInts, runs, zero]
  · left
    exact ⟨[op left right], locals, rfl, fun _ _ => rfl, fun below => by simp [runInts, runs, zero]⟩

/-- A store into a local that `read` does not hold. -/
theorem replacesTop_store {slot : UInt16} (unread : ¬ read slot.toNat) :
    ReplacesTop read 1 0 [.store .int slot] := by
  intro top length locals
  obtain ⟨value, rfl⟩ := List.length_eq_one_iff.mp length
  left
  refine ⟨[], Function.update locals slot.toNat value, rfl, fun other reads => ?_,
    fun below => by rfl⟩
  have different : other ≠ slot.toNat := fun same => unread (same ▸ reads)
  exact Function.update_of_ne different _ _

/-- An instruction the pass may remove that stores into no local `read` holds. -/
def DeadMath (read : Nat → Prop) (instruction : Instruction) : Prop :=
  instruction.isDeadMath = true ∧ ∀ slot : UInt16, instruction = .store .int slot → ¬ read slot.toNat

/-- The step lemma: each instruction the pass may remove takes and gives the values its stack
effect says, whatever lies below them. -/
theorem replacesTop_of_deadMath {instruction : Instruction} (dead : DeadMath read instruction) :
    ReplacesTop read instruction.stackEffect.1 instruction.stackEffect.2 [instruction] := by
  obtain ⟨isDead, safe⟩ := dead
  rcases Instruction.isDeadMath_eq_true isDead with ⟨slot, rfl⟩ | ⟨slot, rfl⟩ | rfl | rfl | rfl |
    rfl | ⟨value, rfl⟩ | ⟨value, rfl⟩
  · exact replacesTop_push (fun locals => locals slot.toNat) fun _ _ => rfl
  · exact replacesTop_store (safe slot rfl)
  · exact replacesTop_binary (· + ·) fun _ _ _ _ => rfl
  · exact replacesTop_binary (· - ·) fun _ _ _ _ => rfl
  · exact replacesTop_dividing (· / ·) fun _ _ _ _ => rfl
  · exact replacesTop_dividing (· % ·) fun _ _ _ _ => rfl
  · exact replacesTop_push (fun _ => value.toInt32) fun _ _ => rfl
  · exact replacesTop_push (fun _ => Int32.ofInt value.toInt) fun _ _ => rfl

/-- Of the instructions the pass may remove, only a store pushes nothing: a run, which starts
from no values needed, ends with one. -/
theorem eq_store_of_pushes_zero {instruction : Instruction} (dead : DeadMath read instruction)
    (pushes : instruction.stackEffect.2 = 0) :
    ∃ slot, instruction = .store .int slot ∧ ¬ read slot.toNat := by
  obtain ⟨isDead, safe⟩ := dead
  rcases Instruction.isDeadMath_eq_true isDead with ⟨slot, rfl⟩ | ⟨slot, rfl⟩ | rfl | rfl | rfl |
    rfl | ⟨value, rfl⟩ | ⟨value, rfl⟩ <;> simp_all [Instruction.stackEffect, SlotType.width,
      NumType.width]

end Effects

/-! ## Stretches of a body and the marks on them -/

section Stretches

variable {α : Type}

/-- The `count` values from position `start` on. -/
def stretch (values : List α) (start count : Nat) : List α := (values.drop start).take count

@[simp] theorem length_stretch (values : List α) (start count : Nat) :
    (stretch values start count).length = min count (values.length - start) := by
  simp [stretch]

theorem stretch_cons {values : List α} {start : Nat} {value : α} (found : values[start]? = some value)
    (count : Nat) : stretch values start (count + 1) = value :: stretch values (start + 1) count := by
  obtain ⟨inside, same⟩ := List.getElem?_eq_some_iff.mp found
  rw [stretch, List.drop_eq_getElem_cons inside, same, List.take_succ_cons, stretch]

theorem stretch_append (values : List α) (start first second : Nat) :
    stretch values start (first + second) =
      stretch values start first ++ stretch values (start + first) second := by
  simp [stretch, List.take_add, List.drop_drop]

theorem stretch_whole (values : List α) : stretch values 0 values.length = values := by
  simp [stretch]

/-- Values that agree over a stretch give the same stretch. -/
theorem stretch_congr {values other : List α} {start count : Nat}
    (agree : ∀ offset, offset < count → other[start + offset]? = values[start + offset]?) :
    stretch other start count = stretch values start count := by
  refine List.ext_getElem? fun offset => ?_
  simp only [stretch, List.getElem?_take, List.getElem?_drop]
  split
  · exact agree offset ‹_›
  · rfl

theorem getElem?_of_mem_stretch {values : List α} {start count : Nat} {value : α}
    (member : value ∈ stretch values start count) :
    ∃ offset, offset < count ∧ values[start + offset]? = some value := by
  obtain ⟨offset, found⟩ := List.mem_iff_getElem?.mp member
  simp only [stretch, List.getElem?_take, List.getElem?_drop] at found
  split at found
  · exact ⟨offset, ‹_›, found⟩
  · cases found

/-- A list of length `total` cut in three at `first` and `next`. -/
theorem stretch_three {values : List α} {first next total : Nat} (length : values.length = total)
    (ordered : first ≤ next) (inside : next ≤ total) :
    values = stretch values 0 first ++ stretch values first (next - first) ++
      stretch values next (total - next) := by
  have sum : first + ((next - first) + (total - next)) = values.length := by omega
  calc values = stretch values 0 values.length := (stretch_whole values).symm
    _ = stretch values 0 (first + ((next - first) + (total - next))) := by rw [sum]
    _ = _ := by
      rw [stretch_append, stretch_append, Nat.zero_add, List.append_assoc,
        show first + (next - first) = next by omega]

/-- Dropping the first `start` values is taking `count` of them and dropping the rest. -/
theorem drop_eq_stretch_append (values : List α) (start count : Nat) :
    values.drop start = stretch values start count ++ values.drop (start + count) := by
  rw [stretch, ← List.drop_drop, List.take_append_drop]

end Stretches

/-- The entries whose marks are off, in order. -/
def keptOf (entries : List Entry) (marks : List Bool) : List Entry :=
  (entries.zip marks).filterMap fun pair => if pair.2 then none else some pair.1

theorem keptOf_append {entries entries' : List Entry} {marks marks' : List Bool}
    (same : entries.length = marks.length) :
    keptOf (entries ++ entries') (marks ++ marks') = keptOf entries marks ++ keptOf entries' marks' := by
  simp [keptOf, List.zip_append same]

/-- The kept entries of a list cut in three, before `first`, up to `next` and after it. -/
theorem keptOf_three {entries : List Entry} {marks : List Bool} {first next : Nat}
    (same : entries.length = marks.length) (ordered : first ≤ next) (inside : next ≤ entries.length) :
    keptOf entries marks =
      keptOf (stretch entries 0 first) (stretch marks 0 first) ++
        keptOf (stretch entries first (next - first)) (stretch marks first (next - first)) ++
          keptOf (stretch entries next (entries.length - next))
            (stretch marks next (entries.length - next)) := by
  conv_lhs => rw [stretch_three rfl ordered inside, stretch_three same.symm ordered (same ▸ inside)]
  rw [keptOf_append (by simp [same]), keptOf_append (by simp [same])]

@[simp] theorem keptOf_cons_false (entry : Entry) (entries : List Entry) (marks : List Bool) :
    keptOf (entry :: entries) (false :: marks) = entry :: keptOf entries marks := by
  simp [keptOf]

theorem keptOf_of_marked {entries : List Entry} {marks : List Bool}
    (marked : ∀ mark ∈ marks, mark = true) : keptOf entries marks = [] := by
  refine List.filterMap_eq_nil_iff.mpr fun pair member => ?_
  simp [marked pair.2 (List.of_mem_zip member).2]

/-- Whether an earlier run took the entry at `position`. -/
def Marked (removed : Array Bool) (position : Nat) : Prop := removed[position]?.getD false = true

theorem not_marked_of_size_le {removed : Array Bool} {position : Nat} (outside : removed.size ≤ position) :
    ¬ Marked removed position := by
  simp [Marked, Array.getElem?_eq_none outside]

theorem getElem?_eq_false_of_not_marked {removed : Array Bool} {position : Nat}
    (inside : position < removed.size) (unmarked : ¬ Marked removed position) :
    removed.toList[position]? = some false := by
  simp only [Marked, Array.getElem?_eq_getElem inside, Option.getD_some, Bool.not_eq_true] at unmarked
  rw [Array.getElem?_toList, Array.getElem?_eq_getElem inside, unmarked]

/-- A stretch of marks over marked positions only. -/
theorem marked_of_mem_stretch {removed : Array Bool} {start count : Nat}
    (marked : ∀ position, start ≤ position → position < start + count → Marked removed position) :
    ∀ mark ∈ stretch removed.toList start count, mark = true := by
  intro mark member
  obtain ⟨offset, below, found⟩ := getElem?_of_mem_stretch member
  have := marked (start + offset) (by omega) (by omega)
  simp only [Marked, ← Array.getElem?_toList, found, Option.getD_some] at this
  exact this

/-- The nearest unmarked position before `position`, with every position between them marked. -/
theorem previousLive_eq_some {removed : Array Bool} (position : Nat) :
    ∀ {earlier : Nat}, DeadStores.previousLive removed position = some earlier →
      earlier < position ∧ ¬ Marked removed earlier ∧
        ∀ between, earlier < between → between < position → Marked removed between := by
  induction position with
  | zero => simp [DeadStores.previousLive]
  | succ position ih =>
    intro earlier found
    simp only [DeadStores.previousLive] at found
    split at found
    · rename_i marked
      obtain ⟨before, unmarked, gap⟩ := ih found
      refine ⟨by omega, unmarked, fun between above below => ?_⟩
      by_cases last : between = position
      · subst last
        exact marked
      · exact gap between above (by omega)
    · rename_i unmarked
      cases found
      exact ⟨by omega, unmarked, fun between above below => by omega⟩

/-! ## Runs of dead arithmetic -/

section Runs

variable {read : Nat → Prop}

/-- `piece` is arithmetic the pass may remove, taking `taken` values from the operand stack and
leaving none. -/
def DeadStretch (read : Nat → Prop) (taken : Nat) (piece : List Entry) : Prop :=
  ∃ block, piece = block.map Entry.instruction ∧ (∀ instruction ∈ block, DeadMath read instruction) ∧
    ReplacesTop read taken 0 block

theorem deadStretch_nil : DeadStretch read 0 [] :=
  ⟨[], rfl, by simp, replacesTop_nil⟩

theorem DeadStretch.append {taken : Nat} {piece piece' : List Entry}
    (first : DeadStretch read 0 piece) (second : DeadStretch read taken piece') :
    DeadStretch read taken (piece ++ piece') := by
  obtain ⟨block, rfl, dead, effect⟩ := first
  obtain ⟨block', rfl, dead', effect'⟩ := second
  refine ⟨block ++ block', by simp, fun instruction member => ?_, ?_⟩
  · rcases List.mem_append.mp member with inFirst | inSecond
    · exact dead instruction inFirst
    · exact dead' instruction inSecond
  · simpa using effect.append effect' (Nat.zero_le taken)

/-- Taking one more instruction in front: the count of values needed goes down by what it pushes
and up by what it pops. -/
theorem ReplacesTop.cons {needed : Nat} {instruction : Instruction} {block : List Instruction}
    (rest : ReplacesTop read needed 0 block) (dead : DeadMath read instruction)
    (enough : instruction.stackEffect.2 ≤ needed) :
    ReplacesTop read (needed - instruction.stackEffect.2 + instruction.stackEffect.1) 0
      (instruction :: block) := by
  have joined := (replacesTop_of_deadMath dead).append rest enough
  rwa [Nat.add_comm] at joined

/-- Every stretch of marked entries that unmarked entries or the ends of the body enclose is dead
arithmetic that leaves the operand stack as it found it. -/
def Sealed (read : Nat → Prop) (entries : Array Entry) (removed : Array Bool) : Prop :=
  ∀ start stop, start ≤ stop → stop ≤ entries.size →
    (∀ position, start ≤ position → position < stop → Marked removed position) →
    (∀ before, before + 1 = start → ¬ Marked removed before) →
    (stop < entries.size → ¬ Marked removed stop) →
    DeadStretch read 0 (stretch entries.toList start (stop - start))

/-- What the walk back from the store at `store` has gathered on reaching `start`: the entries from
`start` to the store are dead arithmetic taking `needed` values; the unmarked ones among them
are at the positions `run` and hold `block`, which itself takes `needed` values. -/
structure Walked (read : Nat → Prop) (entries : Array Entry) (removed : Array Bool)
    (start store needed : Nat) (run : List Nat) (block : List Instruction) : Prop where
  start_le : start ≤ store + 1
  inside : store < entries.size
  whole : DeadStretch read needed (stretch entries.toList start (store + 1 - start))
  live : keptOf (stretch entries.toList start (store + 1 - start))
    (stretch removed.toList start (store + 1 - start)) = block.map Entry.instruction
  dead : ∀ instruction ∈ block, DeadMath read instruction
  effect : ReplacesTop read needed 0 block
  positions : ∀ position, position ∈ run ↔ start ≤ position ∧ position ≤ store ∧ ¬ Marked removed position

namespace Walked

variable {entries : Array Entry} {removed : Array Bool} {store needed : Nat} {run : List Nat}
  {block : List Instruction}

/-- Nothing gathered yet. -/
theorem empty (inside : store < entries.size) : Walked read entries removed (store + 1) store 0 [] [] where
  start_le := Nat.le_refl _
  inside := inside
  whole := by simpa [stretch] using deadStretch_nil
  live := by simp [stretch, keptOf]
  dead := by simp
  effect := replacesTop_nil
  positions := fun position => by simp; omega

/-- The walk takes the unmarked entry at `position` into the run. -/
theorem take {position : Nat} {instruction : Instruction}
    (walked : Walked read entries removed (position + 1) store needed run block)
    (found : entries[position]? = some (.instruction instruction))
    (unmarked : ¬ Marked removed position) (sized : removed.size = entries.size)
    (dead : DeadMath read instruction) (enough : instruction.stackEffect.2 ≤ needed) :
    Walked read entries removed position store
      (needed - instruction.stackEffect.2 + instruction.stackEffect.1) (position :: run)
      (instruction :: block) := by
  have before := walked.start_le
  have count : store + 1 - position = (store + 1 - (position + 1)) + 1 := by omega
  have inside : position < entries.size := (Array.getElem?_eq_some_iff.mp found).1
  have entryAt : entries.toList[position]? = some (.instruction instruction) := by
    rw [Array.getElem?_toList, found]
  have markAt := getElem?_eq_false_of_not_marked (sized ▸ inside) unmarked
  obtain ⟨piece, whole, pieceDead, pieceEffect⟩ := walked.whole
  refine ⟨by omega, walked.inside, ?_, ?_, ?_, walked.effect.cons dead enough, ?_⟩
  · rw [count, stretch_cons entryAt, whole]
    exact ⟨instruction :: piece, rfl, fun other member => by
      rcases List.mem_cons.mp member with rfl | later
      · exact dead
      · exact pieceDead other later, pieceEffect.cons dead enough⟩
  · rw [count, stretch_cons entryAt, stretch_cons markAt, keptOf_cons_false, walked.live]
    rfl
  · intro other member
    rcases List.mem_cons.mp member with rfl | later
    · exact dead
    · exact walked.dead other later
  · intro other
    rw [List.mem_cons, walked.positions]
    constructor
    · rintro (rfl | ⟨above, below, unmarked'⟩)
      · exact ⟨Nat.le_refl _, by omega, unmarked⟩
      · exact ⟨by omega, below, unmarked'⟩
    · rintro ⟨above, below, unmarked'⟩
      by_cases same : other = position
      · exact .inl same
      · exact .inr ⟨by omega, below, unmarked'⟩

/-- The walk steps over the marked entries between `position` and the unmarked `earlier`: they are
runs taken before, which leave the stack as they found it. -/
theorem skip {position earlier : Nat} (sealed : Sealed read entries removed)
    (walked : Walked read entries removed position store needed run block)
    (unmarked : ¬ Marked removed position) (sized : removed.size = entries.size)
    (previous : DeadStores.previousLive removed position = some earlier) :
    Walked read entries removed (earlier + 1) store needed run block := by
  obtain ⟨below, unmarkedEarlier, gap⟩ := previousLive_eq_some _ previous
  have before := walked.start_le
  have inside := walked.inside
  have split : store + 1 - (earlier + 1) = (position - (earlier + 1)) + (store + 1 - position) := by
    omega
  have joined : earlier + 1 + (position - (earlier + 1)) = position := by omega
  have enclosed : DeadStretch read 0 (stretch entries.toList (earlier + 1) (position - (earlier + 1))) :=
    sealed (earlier + 1) position (by omega) (by omega) (fun between above under => gap between
      (by omega) under) (fun other same => by rw [Nat.add_right_cancel same]; exact unmarkedEarlier)
      (fun _ => unmarked)
  have lengths : ∀ start count, (stretch entries.toList start count).length =
      (stretch removed.toList start count).length := by
    intro start count
    simp [sized]
  refine ⟨by omega, inside, ?_, ?_, walked.dead, walked.effect, ?_⟩
  · rw [split, stretch_append, joined]
    exact enclosed.append walked.whole
  · rw [split, stretch_append, stretch_append, joined, keptOf_append (lengths _ _),
      keptOf_of_marked (marked_of_mem_stretch fun between above under => gap between (by omega)
        (by omega)), List.nil_append, walked.live]
  · intro other
    rw [walked.positions]
    constructor
    · rintro ⟨above, under, unmarked'⟩
      exact ⟨by omega, under, unmarked'⟩
    · rintro ⟨above, under, unmarked'⟩
      refine ⟨?_, under, unmarked'⟩
      by_contra early
      exact unmarked' (gap other (by omega) (by omega))

end Walked

end Runs


/-! ## The walk back from a store -/

section Walk

variable {read : Nat → Prop} {entries : Array Entry} {removed : Array Bool}
  {loaded : Std.HashSet Nat}

/-- One step of the walk, read off: the entry is removable arithmetic whose pushes are still
needed, and the walk either ends there with nothing more needed or goes on from the nearest
unmarked entry before it. -/
theorem producingRun_succ {room position needed : Nat} {run result : List Nat}
    (found : DeadStores.producingRun entries removed loaded (room + 1) position needed run =
      some result) :
    ∃ instruction, entries[position]? = some (.instruction instruction) ∧
      DeadStores.storesLoaded loaded instruction = false ∧ instruction.isDeadMath = true ∧
      instruction.stackEffect.2 ≤ needed ∧
      ((needed - instruction.stackEffect.2 + instruction.stackEffect.1 = 0 ∧
          result = position :: run) ∨
        ∃ earlier, DeadStores.previousLive removed position = some earlier ∧
          DeadStores.producingRun entries removed loaded room earlier
            (needed - instruction.stackEffect.2 + instruction.stackEffect.1) (position :: run) =
              some result) := by
  simp only [DeadStores.producingRun] at found
  split at found
  · rename_i instruction at_
    refine ⟨instruction, at_, ?_⟩
    split at found
    · cases found
    · rename_i allowed
      simp only [Bool.or_eq_true, Bool.not_eq_true', not_or, Bool.not_eq_false] at allowed
      split at found
      · cases found
      · rename_i enough
        refine ⟨Bool.eq_false_iff.mpr allowed.1, allowed.2, Nat.le_of_not_lt enough, ?_⟩
        split at found
        · rename_i done
          exact .inl ⟨by simpa using done, (Option.some.inj found).symm⟩
        · split at found
          · rename_i earlier previous
            exact .inr ⟨earlier, previous, found⟩
          · cases found
  · cases found

/-- A step of the walk that ends it: nothing more is needed after the entry at `position`. -/
theorem producingRun_of_finished {room position needed : Nat} {run : List Nat}
    {instruction : Instruction} (found : entries[position]? = some (.instruction instruction))
    (safe : DeadStores.storesLoaded loaded instruction = false)
    (isDead : instruction.isDeadMath = true) (enough : instruction.stackEffect.2 ≤ needed)
    (finished : needed - instruction.stackEffect.2 + instruction.stackEffect.1 = 0) :
    DeadStores.producingRun entries removed loaded (room + 1) position needed run =
      some (position :: run) := by
  simp [DeadStores.producingRun, found, safe, isDead, Nat.not_lt.mpr enough, finished]

/-- A step of the walk that goes on from the nearest unmarked entry before `position`. -/
theorem producingRun_of_continues {room position needed earlier : Nat} {run : List Nat}
    {instruction : Instruction} (found : entries[position]? = some (.instruction instruction))
    (safe : DeadStores.storesLoaded loaded instruction = false)
    (isDead : instruction.isDeadMath = true) (enough : instruction.stackEffect.2 ≤ needed)
    (more : needed - instruction.stackEffect.2 + instruction.stackEffect.1 ≠ 0)
    (previous : DeadStores.previousLive removed position = some earlier) :
    DeadStores.producingRun entries removed loaded (room + 1) position needed run =
      DeadStores.producingRun entries removed loaded room earlier
        (needed - instruction.stackEffect.2 + instruction.stackEffect.1) (position :: run) := by
  simp only [DeadStores.producingRun, found, safe, isDead, Bool.not_true, Bool.or_false,
    Bool.false_eq_true, if_false, Nat.not_lt.mpr enough, beq_iff_eq, more, previous]

/-- An instruction the walk accepts, with the stores it refuses, is one the pass may remove. -/
theorem deadMath_of_allowed (reads : ∀ slot, read slot → loaded.contains slot = true)
    {instruction : Instruction} (safe : DeadStores.storesLoaded loaded instruction = false)
    (isDead : instruction.isDeadMath = true) : DeadMath read instruction := by
  refine ⟨isDead, fun slot same readSlot => ?_⟩
  subst same
  simp [DeadStores.storesLoaded, reads _ readSlot] at safe

/-- The run lemma of the walk: once the walk has gathered up to `position`, a walk that succeeds
ends at an unmarked `first` with the entries from there to the store dead arithmetic that leaves
the stack as it found it; the instruction at `position` is the last one it added before those
gathered so far. The induction is on the room left. -/
theorem producingRun_walks (sealed : Sealed read entries removed) (sized : removed.size = entries.size)
    (reads : ∀ slot, read slot → loaded.contains slot = true) {store : Nat} (room : Nat) :
    ∀ {position needed : Nat} {run result : List Nat} {block : List Instruction},
      DeadStores.producingRun entries removed loaded room position needed run = some result →
      Walked read entries removed (position + 1) store needed run block →
      ¬ Marked removed position →
      ∃ instruction first front, entries[position]? = some (.instruction instruction) ∧
        instruction.stackEffect.2 ≤ needed ∧ DeadMath read instruction ∧ ¬ Marked removed first ∧
        Walked read entries removed first store 0 result (front ++ instruction :: block) := by
  induction room with
  | zero =>
    intro position needed run result block found
    simp [DeadStores.producingRun] at found
  | succ room ih =>
    intro position needed run result block found walked unmarked
    obtain ⟨instruction, at_, safe, isDead, enough, next⟩ := producingRun_succ found
    have dead := deadMath_of_allowed reads safe isDead
    have taken := walked.take at_ unmarked sized dead enough
    rcases next with ⟨finished, rfl⟩ | ⟨earlier, previous, rest⟩
    · rw [finished] at taken
      exact ⟨instruction, position, [], at_, enough, dead, unmarked, taken⟩
    · obtain ⟨_, unmarkedEarlier, _⟩ := previousLive_eq_some _ previous
      obtain ⟨next, first, front, -, -, -, unmarkedFirst, done⟩ :=
        ih rest (taken.skip sealed unmarked sized previous) unmarkedEarlier
      exact ⟨instruction, first, front ++ [next], at_, enough, dead, unmarkedFirst,
        by simpa using done⟩

end Walk


/-! ## The locals the method reads -/

/-- The entry is an `iload` or an `iinc` of the local `slot`. -/
def Entry.ReadsLocal (entry : Entry) (slot : Nat) : Prop :=
  ∃ index : UInt16, index.toNat = slot ∧
    (entry = .instruction (.load .int index) ∨ ∃ amount, entry = .instruction (.iinc index amount))

/-- Some `iload` or `iinc` of the body reads the local `slot`. -/
def ReadsInt (entries : Array Entry) (slot : Nat) : Prop := ∃ entry ∈ entries, entry.ReadsLocal slot

theorem readsLocal_load {index : UInt16} {slot : Nat} :
    (Entry.instruction (.load .int index)).ReadsLocal slot ↔ index.toNat = slot := by
  constructor
  · rintro ⟨other, same, isLoad | ⟨_, isIncrement⟩⟩
    · cases isLoad
      exact same
    · cases isIncrement
  · intro same
    exact ⟨index, same, .inl rfl⟩

theorem readsLocal_iinc {index : UInt16} {amount : Int16} {slot : Nat} :
    (Entry.instruction (.iinc index amount)).ReadsLocal slot ↔ index.toNat = slot := by
  constructor
  · rintro ⟨other, same, isLoad | ⟨_, isIncrement⟩⟩
    · cases isLoad
    · cases isIncrement
      exact same
  · intro same
    exact ⟨index, same, .inr ⟨amount, rfl⟩⟩

theorem contains_noteRead (loaded : Std.HashSet Nat) (entry : Entry) (slot : Nat) :
    (DeadStores.noteRead loaded entry).contains slot = true ↔
      loaded.contains slot = true ∨ entry.ReadsLocal slot := by
  unfold DeadStores.noteRead
  split
  · rw [Std.HashSet.contains_insert, readsLocal_load, Bool.or_eq_true, beq_iff_eq, or_comm]
  · rw [Std.HashSet.contains_insert, readsLocal_iinc, Bool.or_eq_true, beq_iff_eq, or_comm]
  · rename_i notLoad notIncrement
    simp only [Entry.ReadsLocal, iff_self_or]
    rintro ⟨index, -, isLoad | ⟨amount, isIncrement⟩⟩
    · exact absurd isLoad (notLoad index)
    · exact absurd isIncrement (notIncrement index amount)

/-- The slots the pass notes as loaded are exactly those an `iload` or `iinc` reads. -/
theorem contains_foldl_noteRead (entries : Array Entry) (slot : Nat) :
    (entries.foldl DeadStores.noteRead {}).contains slot = true ↔ ReadsInt entries slot := by
  have noted : ∀ (list : List Entry) (loaded : Std.HashSet Nat),
      (list.foldl DeadStores.noteRead loaded).contains slot = true ↔
        loaded.contains slot = true ∨ ∃ entry ∈ list, entry.ReadsLocal slot := by
    intro list
    induction list with
    | nil => simp
    | cons entry rest ih =>
      intro loaded
      rw [List.foldl_cons, ih, contains_noteRead]
      simp [or_assoc]
  rw [← Array.foldl_toList, noted]
  simp [ReadsInt]

/-! ## Removing runs one after another -/

/-- `count` runs taken out one after another turn `before` into `after`. Each run stands together
in the list of its time and is arithmetic the pass may remove, ending with a store into a local
that `read` does not hold, that leaves the operand stack as it found it. -/
inductive RemovesRuns (read : Nat → Prop) : Nat → List Entry → List Entry → Prop
  | nothing (entries : List Entry) : RemovesRuns read 0 entries entries
  | more {count : Nat} {before front back : List Entry} {block : List Instruction} {slot : UInt16} :
      RemovesRuns read count before
        (front ++ (block ++ [Instruction.store .int slot]).map Entry.instruction ++ back) →
      (∀ instruction ∈ block ++ [Instruction.store .int slot], DeadMath read instruction) →
      ReplacesTop read 0 0 (block ++ [Instruction.store .int slot]) →
      RemovesRuns read (count + 1) before (front ++ back)

section Sweep

variable {read : Nat → Prop} {entries : Array Entry}

theorem size_markRun (removed : Array Bool) (run : List Nat) :
    (DeadStores.markRun removed run).size = removed.size := by
  unfold DeadStores.markRun
  induction run generalizing removed with
  | nil => rfl
  | cons position rest ih => rw [List.foldl_cons, ih, Array.size_set!]

theorem getElem?_markRun (removed : Array Bool) (run : List Nat) (position : Nat) :
    (DeadStores.markRun removed run)[position]? =
      removed[position]?.map fun marked => marked || decide (position ∈ run) :=
  foldl_mark run removed position

theorem marked_markRun {removed : Array Bool} {run : List Nat} {position : Nat}
    (inside : ∀ other ∈ run, other < removed.size) :
    Marked (DeadStores.markRun removed run) position ↔ Marked removed position ∨ position ∈ run := by
  simp only [Marked, getElem?_markRun]
  cases found : removed[position]? with
  | none =>
    have outside := Array.getElem?_eq_none_iff.mp found
    simp only [Option.map_none, Option.getD_none, Bool.false_eq_true, false_or, false_iff]
    exact fun member => absurd (inside position member) (Nat.not_lt.mpr outside)
  | some marked => simp

/-- Marking a run leaves the marks of a stretch that holds no position of the run. -/
theorem stretch_markRun {removed : Array Bool} {run : List Nat} {start count : Nat}
    (away : ∀ offset, offset < count → start + offset ∉ run) :
    stretch (DeadStores.markRun removed run).toList start count =
      stretch removed.toList start count := by
  refine stretch_congr fun offset below => ?_
  rw [Array.getElem?_toList, Array.getElem?_toList, getElem?_markRun]
  cases removed[start + offset]? <;> simp [away offset below]

/-- Marking the run of a walk: the positions from where the walk ended to the store are marked,
and the others keep their marks. -/
theorem Walked.marked_markRun_iff {removed : Array Bool} {first store needed : Nat}
    {run : List Nat} {block : List Instruction}
    (walked : Walked read entries removed first store needed run block)
    (sized : removed.size = entries.size) (position : Nat) :
    Marked (DeadStores.markRun removed run) position ↔
      (first ≤ position ∧ position ≤ store) ∨ Marked removed position := by
  have inside := walked.inside
  rw [marked_markRun fun other member => by
      have := (walked.positions other).mp member
      omega,
    walked.positions]
  by_cases old : Marked removed position <;> simp [old]

/-- Marking the run of a walk takes exactly its block out of the kept entries, from between what
is kept before the walk's first entry and after its store. -/
theorem Walked.keptOf_markRun {removed : Array Bool} {first store needed : Nat}
    {run : List Nat} {block : List Instruction}
    (walked : Walked read entries removed first store needed run block)
    (sized : removed.size = entries.size) :
    ∃ front back, keptOf entries.toList removed.toList = front ++ block.map Entry.instruction ++ back ∧
      keptOf entries.toList (DeadStores.markRun removed run).toList = front ++ back := by
  have inside := walked.inside
  have ordered := walked.start_le
  have lengths : entries.toList.length = removed.toList.length := by simp [sized]
  have lengths' : entries.toList.length = (DeadStores.markRun removed run).toList.length := by
    simp [size_markRun, sized]
  have bounded : store + 1 ≤ entries.toList.length := by simpa using inside
  have away : ∀ start count, (start + count ≤ first ∨ store < start) →
      ∀ offset, offset < count → start + offset ∉ run := by
    intro start count apart offset below member
    have := (walked.positions _).mp member
    omega
  -- between the walk's ends every position is marked now, so nothing of the run is kept
  have gone : keptOf (stretch entries.toList first (store + 1 - first))
      (stretch (DeadStores.markRun removed run).toList first (store + 1 - first)) = [] :=
    keptOf_of_marked (marked_of_mem_stretch fun position above below =>
      (walked.marked_markRun_iff sized position).mpr (.inl ⟨above, by omega⟩))
  refine ⟨keptOf (stretch entries.toList 0 first) (stretch removed.toList 0 first),
    keptOf (stretch entries.toList (store + 1) (entries.toList.length - (store + 1)))
      (stretch removed.toList (store + 1) (entries.toList.length - (store + 1))), ?_, ?_⟩
  · rw [keptOf_three lengths ordered bounded, walked.live]
  · rw [keptOf_three lengths' ordered bounded, gone, List.append_nil,
      stretch_markRun (away 0 first (by omega)),
      stretch_markRun (away (store + 1) _ (by omega))]

/-- Marking the run of a walk that went back from an unmarked store to an unmarked entry keeps
every enclosed marked stretch dead arithmetic. -/
theorem Sealed.markRun {removed : Array Bool} {first store : Nat} {run : List Nat}
    {block : List Instruction} (sealed : Sealed read entries removed)
    (walked : Walked read entries removed first store 0 run block)
    (sized : removed.size = entries.size) (unmarkedFirst : ¬ Marked removed first)
    (unmarkedStore : ¬ Marked removed store) :
    Sealed read entries (DeadStores.markRun removed run) := by
  have marks := walked.marked_markRun_iff sized
  have inside := walked.inside
  have ordered := walked.start_le
  have kept : ∀ position, Marked removed position →
      Marked (DeadStores.markRun removed run) position :=
    fun position old => (marks position).mpr (.inr old)
  have old : ∀ position, (position < first ∨ store < position) →
      Marked (DeadStores.markRun removed run) position → Marked removed position :=
    fun position away marked => ((marks position).mp marked).resolve_left (by omega)
  intro start stop ordered' bounded allMarked leftEdge rightEdge
  by_cases apart : stop ≤ first ∨ store < start
  · -- a stretch away from the run was enclosed before
    exact sealed start stop ordered' bounded
      (fun position above below => old position (by omega) (allMarked position above below))
      (fun before same marked => leftEdge before same (kept before marked))
      (fun beyond marked => rightEdge beyond (kept stop marked))
  · -- a stretch meeting the run holds all of it, between two stretches enclosed before
    have covered : ∀ position, first ≤ position → position ≤ store →
        Marked (DeadStores.markRun removed run) position :=
      fun position above below => (marks position).mpr (.inl ⟨above, below⟩)
    have startBefore : start ≤ first := by
      by_contra late
      exact leftEdge (start - 1) (by omega) (covered _ (by omega) (by omega))
    have stopAfter : store < stop := by
      by_contra early
      exact rightEdge (by omega) (covered stop (by omega) (by omega))
    have left := sealed start first startBefore (by omega)
      (fun position above below => old position (by omega) (allMarked position above (by omega)))
      (fun before same marked => leftEdge before same (kept before marked))
      (fun _ => unmarkedFirst)
    have right := sealed (store + 1) stop (by omega) bounded
      (fun position above below => old position (by omega) (allMarked position (by omega) below))
      (fun before same => by rw [Nat.add_right_cancel same]; exact unmarkedStore)
      (fun beyond marked => rightEdge beyond (kept stop marked))
    have pieces : stop - start = (first - start) + ((store + 1 - first) + (stop - (store + 1))) := by
      omega
    rw [pieces, stretch_append, stretch_append, show start + (first - start) = first by omega,
      show first + (store + 1 - first) = store + 1 by omega]
    exact left.append (walked.whole.append right)

/-- The invariant of the fold over the last stores: a mark for every entry, every enclosed marked
stretch dead arithmetic, and the entries left `count` runs away from the body. -/
structure Swept (read : Nat → Prop) (entries : Array Entry) (removed : Array Bool) (count : Nat) :
    Prop where
  sized : removed.size = entries.size
  sealed : Sealed read entries removed
  runs : RemovesRuns read count entries.toList (keptOf entries.toList removed.toList)

theorem keptOf_replicate_false (values : List Entry) :
    keptOf values (List.replicate values.length false) = values := by
  induction values with
  | nil => rfl
  | cons value rest ih => simp [List.replicate_succ, ih]

theorem Swept.start : Swept read entries (Array.replicate entries.size false) 0 where
  sized := Array.size_replicate
  sealed := by
    intro start stop ordered bounded marked _ _
    -- nothing is marked yet, so an enclosed marked stretch is empty
    have empty : stop - start = 0 := by
      by_contra nonempty
      have := marked start le_rfl (by omega)
      simp only [Marked, Array.getElem?_replicate] at this
      split at this <;> simp at this
    rw [empty]
    simpa [stretch] using deadStretch_nil
  runs := by
    rw [Array.toList_replicate, ← Array.length_toList, keptOf_replicate_false]
    exact .nothing _

/-- Marking the run the walk from an unmarked store found keeps the invariant: the run and the
marked stretches it encloses become one marked stretch, and the list loses the run. -/
theorem Swept.mark {removed : Array Bool} {count store : Nat} {loaded : Std.HashSet Nat}
    {run : List Nat} (reads : ∀ slot, read slot → loaded.contains slot = true)
    (swept : Swept read entries removed count) (unmarkedStore : ¬ Marked removed store)
    (found : DeadStores.producingRun entries removed loaded (7 + 1) store 0 [] = some run) :
    Swept read entries (DeadStores.markRun removed run) (count + 1) := by
  have sized := swept.sized
  have inside : store < entries.size := by
    obtain ⟨_, at_, -⟩ := producingRun_succ found
    exact (Array.getElem?_eq_some_iff.mp at_).1
  obtain ⟨instruction, first, front, -, pushes, dead, unmarkedFirst, walked⟩ :=
    producingRun_walks swept.sealed sized reads _ found (Walked.empty inside) unmarkedStore
  obtain ⟨slot, rfl, -⟩ := eq_store_of_pushes_zero dead (Nat.le_zero.mp pushes)
  obtain ⟨keptBefore, keptAfter, before, after⟩ := walked.keptOf_markRun sized
  have runs := swept.runs
  rw [before] at runs
  refine ⟨(size_markRun removed run).trans sized,
    Sealed.markRun swept.sealed walked sized unmarkedFirst unmarkedStore, ?_⟩
  rw [after]
  exact .more runs walked.dead walked.effect

theorem Swept.removeRun {removed : Array Bool} {count : Nat} {loaded : Std.HashSet Nat}
    (reads : ∀ slot, read slot → loaded.contains slot = true)
    (swept : Swept read entries removed count) (last : Nat × Nat) :
    Swept read entries (DeadStores.removeRun entries loaded (removed, count) last).1
      (DeadStores.removeRun entries loaded (removed, count) last).2 := by
  unfold DeadStores.removeRun
  split
  · exact swept
  · rename_i fresh
    simp only [Bool.or_eq_true, not_or] at fresh
    split
    · rename_i run found
      exact swept.mark reads fresh.2 found
    · exact swept

/-- The run lemma of the fold: whatever order the last stores come in, the invariant holds at
the end. -/
theorem Swept.foldl {loaded : Std.HashSet Nat} (reads : ∀ slot, read slot → loaded.contains slot = true)
    (lasts : List (Nat × Nat)) :
    ∀ {removed : Array Bool} {count : Nat}, Swept read entries removed count →
      Swept read entries (lasts.foldl (DeadStores.removeRun entries loaded) (removed, count)).1
        (lasts.foldl (DeadStores.removeRun entries loaded) (removed, count)).2 := by
  induction lasts with
  | nil => exact id
  | cons last rest ih =>
    intro removed count swept
    exact ih (swept.removeRun reads last)

theorem removeDeadStores_sweeps (body : Body) :
    ∃ removed, Swept (ReadsInt body.entries) body.entries removed body.removeDeadStores.2 ∧
      body.removeDeadStores.1.handlers = body.handlers ∧
      body.removeDeadStores.1.entries.toList = keptOf body.entries.toList removed.toList := by
  have reads : ∀ slot, ReadsInt body.entries slot →
      (body.entries.foldl DeadStores.noteRead {}).contains slot = true :=
    fun slot reading => (contains_foldl_noteRead body.entries slot).mpr reading
  unfold Body.removeDeadStores
  dsimp only
  refine ⟨_, Swept.foldl reads _ Swept.start, rfl, ?_⟩
  rw [Array.toList_filterMap, Array.toList_zip]
  rfl

end Sweep


/-! ## The body in pieces -/

/-- A piece of a method body as the pass leaves it: an entry kept, or a block of instructions
taken out. -/
inductive BodyPiece where
  | kept (entry : Entry)
  | removed (block : List Instruction)

namespace BodyPiece

/-- The entries the piece stands for in the body. -/
def before : BodyPiece → List Entry
  | kept entry => [entry]
  | removed block => block.map Entry.instruction

/-- The entries the pass leaves of it. -/
def after : BodyPiece → List Entry
  | kept entry => [entry]
  | removed _ => []

/-- A removed block is arithmetic the pass may remove, never empty, that leaves the operand stack
as it found it. -/
def Sound (read : Nat → Prop) : BodyPiece → Prop
  | kept _ => True
  | removed block => block ≠ [] ∧ (∀ instruction ∈ block, DeadMath read instruction) ∧
      ReplacesTop read 0 0 block

end BodyPiece

section Pieces

variable {read : Nat → Prop} {entries : Array Entry} {removed : Array Bool}

/-- A marked stretch from `start` ends, at the first unmarked position after it or at `size`. -/
theorem exists_end_of_marked {start size : Nat} (inside : start < size)
    (marked : Marked removed start) :
    ∃ stop, start < stop ∧ stop ≤ size ∧
      (∀ position, start ≤ position → position < stop → Marked removed position) ∧
      (stop < size → ¬ Marked removed stop) := by
  classical
  have ends : ∃ stop, start < stop ∧ (size ≤ stop ∨ ¬ Marked removed stop) :=
    ⟨size, inside, .inl le_rfl⟩
  obtain ⟨beyond, ended⟩ := Nat.find_spec ends
  refine ⟨Nat.find ends, beyond, Nat.find_min' ends ⟨inside, .inl le_rfl⟩, ?_,
    fun short => ended.resolve_left (by omega)⟩
  intro position above below
  rcases Nat.eq_or_lt_of_le above with rfl | later
  · exact marked
  · have unended := Nat.find_min ends below
    simp only [not_and, not_or, not_not] at unended
    exact (unended later).2

/-- Reading the body from `start` on, where a marked entry at `start` is where a marked stretch
begins, it splits into kept entries and the enclosed marked stretches. The induction is on the
entries left; each step takes a kept entry or a whole marked stretch. -/
theorem Sealed.pieces_from (sealed : Sealed read entries removed) (sized : removed.size = entries.size) :
    ∀ count start, entries.size - start = count →
      (Marked removed start → ∀ before, before + 1 = start → ¬ Marked removed before) →
      ∃ pieces : List BodyPiece, entries.toList.drop start = pieces.flatMap BodyPiece.before ∧
        keptOf (entries.toList.drop start) (removed.toList.drop start) =
          pieces.flatMap BodyPiece.after ∧
        ∀ piece ∈ pieces, piece.Sound read := by
  intro count
  induction count using Nat.strong_induction_on with
  | _ count ih =>
  intro start remaining edge
  by_cases inside : start < entries.size
  swap
  · have emptied : entries.toList.drop start = [] := List.drop_eq_nil_of_le (by simp; omega)
    have emptiedMarks : removed.toList.drop start = [] := List.drop_eq_nil_of_le (by simp; omega)
    exact ⟨[], emptied, by simp [emptied, emptiedMarks, keptOf], by simp⟩
  by_cases marked : Marked removed start
  · -- a whole marked stretch, up to the next unmarked entry or the end
    obtain ⟨stop, beyond, within, gone, ended⟩ := exists_end_of_marked inside marked
    obtain ⟨block, piece, dead, effect⟩ := sealed start stop beyond.le within gone (edge marked) ended
    have unmarkedStop : ¬ Marked removed stop := by
      by_cases short : stop < entries.size
      · exact ended short
      · exact not_marked_of_size_le (by omega)
    obtain ⟨pieces, restBefore, restAfter, restSound⟩ := ih (entries.size - stop) (by omega)
      stop rfl fun markedStop => absurd markedStop unmarkedStop
    have reach : start + (stop - start) = stop := by omega
    refine ⟨.removed block :: pieces, ?_, ?_, ?_⟩
    · rw [drop_eq_stretch_append _ start (stop - start), reach, piece, restBefore]
      rfl
    · rw [drop_eq_stretch_append _ start (stop - start),
        drop_eq_stretch_append removed.toList start (stop - start), reach,
        keptOf_append (by simp [sized]), keptOf_of_marked (marked_of_mem_stretch fun position above
          below => gone position above (by omega)), restAfter]
      rfl
    · intro other member
      rcases List.mem_cons.mp member with rfl | later
      · refine ⟨fun empty => ?_, dead, effect⟩
        have lengths := congrArg List.length piece
        simp [empty] at lengths
        omega
      · exact restSound other later
  · -- an entry kept
    obtain ⟨pieces, restBefore, restAfter, restSound⟩ := ih (entries.size - (start + 1)) (by omega)
      (start + 1) rfl fun _ before same => by rw [Nat.add_right_cancel same]; exact marked
    have entryAt : entries.toList[start]? = some entries[start] := by simp [inside]
    have markAt := getElem?_eq_false_of_not_marked (sized ▸ inside) marked
    have dropEntries := drop_eq_stretch_append entries.toList start 1
    have dropMarks := drop_eq_stretch_append removed.toList start 1
    rw [stretch_cons entryAt, stretch] at dropEntries
    rw [stretch_cons markAt, stretch] at dropMarks
    refine ⟨.kept entries[start] :: pieces, ?_, ?_, ?_⟩
    · rw [dropEntries, restBefore]
      simp [BodyPiece.before]
    · rw [dropEntries, dropMarks]
      simp only [List.take_zero, List.cons_append, List.nil_append, keptOf_cons_false, restAfter]
      rfl
    · intro other member
      rcases List.mem_cons.mp member with rfl | later
      · trivial
      · exact restSound other later

end Pieces

/-- The dead-store pass keeps the handlers, and its result is `count` run removals away from the
body, `count` being the number it returns: each run stands together in the list of its time and
is `int` arithmetic ending with a store into a local no `iload` or `iinc` of the method reads.
Seen from the body, the pass keeps some entries and takes out blocks of that arithmetic; each
block stores only into locals nothing reads and, run from any operand stack and locals, leaves
the stack as it found it without looking below it, or throws on a zero divisor. -/
theorem removeDeadStores_removes_dead_runs (body : Body) :
    let outcome := body.removeDeadStores
    outcome.1.handlers = body.handlers ∧
    RemovesRuns (ReadsInt body.entries) outcome.2 body.entries.toList outcome.1.entries.toList ∧
    ∃ pieces : List BodyPiece,
      body.entries.toList = pieces.flatMap BodyPiece.before ∧
      outcome.1.entries.toList = pieces.flatMap BodyPiece.after ∧
      ∀ piece ∈ pieces, piece.Sound (ReadsInt body.entries) := by
  intro outcome
  obtain ⟨removed, swept, handlers, kept⟩ := removeDeadStores_sweeps body
  obtain ⟨pieces, before, after, sound⟩ := swept.sealed.pieces_from swept.sized _ 0 rfl
    fun _ before same => by omega
  refine ⟨handlers, kept ▸ swept.runs, pieces, by simpa using before, ?_, sound⟩
  rw [kept]
  simpa using after

/-- A division by zero stored into a local nothing reads, then a return. -/
def zeroDivisionBody : Body where
  entries := #[.instruction (.iconst .one), .instruction (.iconst .zero),
    .instruction (.arith .div .int), .instruction (.store .int 1), .branch .returnVoid]

/-- The pass removes a division by zero: it takes out the four instructions before the return as
one run, and those instructions throw from every operand stack and locals. -/
theorem removeDeadStores_drops_zero_division :
    zeroDivisionBody.removeDeadStores.2 = 1 ∧
    zeroDivisionBody.removeDeadStores.1.entries.toList = [.branch .returnVoid] ∧
    ∀ frame, runInts [.iconst .one, .iconst .zero, .arith .div .int, .store .int 1] frame =
      .divideByZero := by
  -- no entry reads a local, so the store into slot 1 is the last and only candidate
  have unread : ∀ slot,
      (zeroDivisionBody.entries.foldl DeadStores.noteRead {}).contains slot = false := by
    intro slot
    refine Bool.eq_false_iff.mpr fun reads => ?_
    obtain ⟨entry, member, index, -, isLoad | ⟨amount, isIncrement⟩⟩ :=
      (contains_foldl_noteRead _ slot).mp reads
    · subst isLoad
      simp [zeroDivisionBody] at member
    · subst isIncrement
      simp [zeroDivisionBody] at member
  have lasts : zeroDivisionBody.entries.toList.zipIdx.foldl DeadStores.noteStore {} =
      (∅ : Std.HashMap Nat Nat).insert 1 3 := by
    simp [zeroDivisionBody, DeadStores.noteStore]
  have listed : ((∅ : Std.HashMap Nat Nat).insert 1 3).toList = [(1, 3)] :=
    List.perm_singleton.mp (by
      simpa using Std.HashMap.toList_insert_perm (m := (∅ : Std.HashMap Nat Nat)) (k := 1) (v := 3))
  unfold Body.removeDeadStores
  dsimp only
  rw [lasts, listed, List.mergeSort_singleton]
  generalize Array.foldl DeadStores.noteRead ∅ zeroDivisionBody.entries = loaded at unread ⊢
  -- the walk from the store takes the division and both constants, then needs nothing more
  have walk : DeadStores.producingRun zeroDivisionBody.entries
      (Array.replicate zeroDivisionBody.entries.size false) loaded DeadStores.maxRun 3 0 [] =
        some [0, 1, 2, 3] := by
    have stores : DeadStores.storesLoaded loaded (.store .int 1) = false := unread 1
    rw [show DeadStores.maxRun = 7 + 1 from rfl,
      producingRun_of_continues rfl stores rfl (by decide) (by decide) rfl,
      producingRun_of_continues rfl rfl rfl (by decide) (by decide) rfl,
      producingRun_of_continues rfl rfl rfl (by decide) (by decide) rfl,
      producingRun_of_finished rfl rfl rfl (by decide) (by decide)]
  simp only [List.foldl_cons, List.foldl_nil, DeadStores.removeRun, unread, walk]
  exact ⟨by decide, by decide +kernel, fun frame => rfl⟩

end ClassKit
