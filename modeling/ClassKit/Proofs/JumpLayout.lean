import ClassKit.Proofs.EncodeFailure

/-!
# The layout of written code

Writing a body lays its entries out one after the other. Branches with a 16-bit form start
short; a round of widening looks at the layout and widens every short branch whose distance
does not fit in 16 bits, and the rounds go on until one widens nothing. This module says what
comes out.

`Body.LaidOut` is the layout rule, stated apart from the writer: the code is one piece of bytes
per entry, a label takes no bytes and stands where the next entry starts, and each branch is
written for the byte it starts at and the bytes its targets stand at (`Branch.WrittenAt`). A
short jump carries the 16-bit distance to its target, and only when that distance fits; a
widened `goto` or `jsr` carries the 32-bit distance; a widened conditional is the opposite
condition jumping 8 bytes ahead over a `goto_w` whose distance counts from the `goto_w`; a
switch pads with zero bytes so that its operands start at a multiple of four.

The widening rounds only ever widen more branches, and each round that widens something widens
a branch that was short, so with one more round than there are entries they end on a round that
changes nothing (`Layout.settle_settles`). The layout of that round is the one the code is
written with, which is why every short jump fits.
-/

namespace ClassKit

/-! ## The layout rule -/

namespace Branch

/-- A conditional jump at byte `offset` to byte `target`: its opcode and the 16-bit distance,
when the distance fits there, or else the opposite condition jumping 8 bytes ahead over a
`goto_w` with the 32-bit distance from the `goto_w`, three bytes on. -/
def ConditionalAt (opcode opposite offset target : Nat) (piece : List UInt8) : Prop :=
  (Layout.fitsShort ((target : Int) - offset) = true ∧
      piece = [opcode.toUInt8] ++ Bytes.ofInt 2 ((target : Int) - offset)) ∨
    piece = [opposite.toUInt8] ++ Bytes.ofInt 2 8 ++ [0xc8] ++
      Bytes.ofInt 4 ((target : Int) - (offset + 3))

/-- A `goto` or `jsr` at byte `offset` to byte `target`: the short opcode with the 16-bit
distance, when the distance fits there, or else the wide opcode with the 32-bit distance. -/
def JumpAt (short wide : UInt8) (offset target : Nat) (piece : List UInt8) : Prop :=
  (Layout.fitsShort ((target : Int) - offset) = true ∧
      piece = [short] ++ Bytes.ofInt 2 ((target : Int) - offset)) ∨
    piece = [wide] ++ Bytes.ofInt 4 ((target : Int) - offset)

/-- A switch at byte `offset`: its opcode, zero bytes up to the next multiple of four, and then
its operands. -/
def SwitchAt (opcode : UInt8) (offset : Nat) (operands piece : List UInt8) : Prop :=
  ∃ padding < 4, (offset + 1 + padding) % 4 = 0 ∧
    piece = [opcode] ++ List.replicate padding 0 ++ operands

/-- The bytes of a branch at byte `offset`, when each label stands at byte `placedAt label`.
Distances count from the branch; lookup switch pairs come sorted by key. -/
def WrittenAt (placedAt : Label → Nat) (offset : Nat) : Branch Label → List UInt8 → Prop
  | ifZero condition target => ConditionalAt (0x99 + condition.code) (0x99 + condition.negate.code)
      offset (placedAt target)
  | ifICmp condition target => ConditionalAt (0x9f + condition.code) (0x9f + condition.negate.code)
      offset (placedAt target)
  | ifACmp condition target => ConditionalAt (0xa5 + condition.code) (0xa5 + condition.negate.code)
      offset (placedAt target)
  | ifNull condition target => ConditionalAt (0xc6 + condition.code) (0xc6 + condition.negate.code)
      offset (placedAt target)
  | goto target => JumpAt 0xa7 0xc8 offset (placedAt target)
  | jsr target => JumpAt 0xa8 0xc9 offset (placedAt target)
  | tableSwitch default low targets => SwitchAt 0xaa offset
      (Bytes.ofInt 4 ((placedAt default : Int) - offset) ++ Bytes.ofInt 4 low.toInt ++
        Bytes.ofInt 4 (low.toInt + targets.length - 1) ++
        targets.flatMap fun target => Bytes.ofInt 4 ((placedAt target : Int) - offset))
  | lookupSwitch default pairs => fun piece => ∃ sorted : List (Int32 × Int),
      sorted.Perm (pairs.map fun pair => (pair.1, (placedAt pair.2 : Int) - offset)) ∧
      sorted.Pairwise (fun first second => first.1.toInt ≤ second.1.toInt) ∧
      SwitchAt 0xab offset (Bytes.ofInt 4 ((placedAt default : Int) - offset) ++
        Bytes.ofInt 4 pairs.length ++
        sorted.flatMap fun pair => Bytes.ofInt 4 pair.1.toInt ++ Bytes.ofInt 4 pair.2) piece
  | returnValue type => fun piece => piece = [(0xac + type.code).toUInt8]
  | returnVoid => fun piece => piece = [0xb1]
  | athrow => fun piece => piece = [0xbf]

end Branch

namespace Entry

/-- An entry of `entries` laid out as `piece` from byte `offset`, when each label stands at byte
`placedAt label`: a label takes no bytes and stands at `offset`; a branch names only labels
placed among the entries and is written for its offset; an instruction is left to its own
bytes. -/
def LaidOutAt (entries : List Entry) (placedAt : Label → Nat) (offset : Nat) :
    Entry → List UInt8 → Prop
  | label placed, piece => piece = [] ∧ placedAt placed = offset
  | instruction _, _ => True
  | branch jump, piece => (∀ target ∈ jump.targets, Entry.label target ∈ entries) ∧
      jump.WrittenAt placedAt offset piece

end Entry

/-- Code laid out from the entries of a body: one piece of bytes for each entry, in order, each
laid out from the byte where it starts, with each label standing at one byte. -/
def Body.LaidOut (body : Body) (code : List UInt8) : Prop :=
  ∃ (pieces : List (List UInt8)) (placedAt : Label → Nat),
    pieces.length = body.entries.size ∧ code = pieces.flatten ∧
    ∀ index (entry : Entry) piece, body.entries[index]? = some entry → pieces[index]? = some piece →
      entry.LaidOutAt body.entries.toList placedAt (pieces.take index).flatten.length piece

/-! ## Branch bytes -/

namespace Branch

variable {τ υ : Type}

@[simp]
theorem size_map (f : τ → υ) (branch : Branch τ) (offset : Nat) (wide : Bool) :
    (branch.map f).size offset wide = branch.size offset wide := by
  cases branch <;> simp [map, size]

/-- A branch takes the bytes its size says. -/
theorem length_bytes (branch : Branch Int) (offset : Nat) (wide : Bool) :
    (branch.bytes offset wide).length = branch.size offset wide := by
  cases branch <;> cases wide <;>
    simp [bytes, size, conditionalBytes, Bytes.ofInt, Bytes.length_ofNat, List.length_flatMap]
  all_goals omega

theorem switchPadding_aligns (offset : Nat) :
    switchPadding offset < 4 ∧ (offset + 1 + switchPadding offset) % 4 = 0 := by
  unfold switchPadding
  omega

/-- The bytes of a branch whose targets are given as distances from it follow the layout rule,
provided a branch left short reaches each of its targets in 16 bits. -/
theorem bytes_writtenAt (placedAt : Label → Nat) (offset : Nat) (branch : Branch Label)
    (wide : Bool) (fits : wide = false → branch.hasShortForm = true →
      ∀ target ∈ branch.targets, Layout.fitsShort ((placedAt target : Int) - offset) = true) :
    branch.WrittenAt placedAt offset
      ((branch.map fun target => (placedAt target : Int) - offset).bytes offset wide) := by
  -- a short branch has one target, whose distance fits
  have fitsOne : ∀ target, branch.targets = [target] → branch.hasShortForm = true →
      wide = false → Layout.fitsShort ((placedAt target : Int) - offset) = true :=
    fun target only short narrow => fits narrow short target (by simp [only])
  cases branch with
  | ifZero condition target | ifICmp condition target | ifACmp condition target
  | ifNull condition target =>
    cases wide with
    | false => exact .inl ⟨fitsOne target rfl rfl rfl, rfl⟩
    | true =>
      refine .inr ?_
      simp only [map, bytes, conditionalBytes, ↓reduceIte, Int.sub_sub]
  | goto target | jsr target =>
    cases wide with
    | false => exact .inl ⟨fitsOne target rfl rfl rfl, rfl⟩
    | true => exact .inr rfl
  | tableSwitch default low targets =>
    refine ⟨switchPadding offset, (switchPadding_aligns offset).1, (switchPadding_aligns offset).2, ?_⟩
    simp only [map, bytes, List.length_map, List.flatMap_map, List.append_assoc]
  | lookupSwitch default pairs =>
    refine ⟨_, List.mergeSort_perm _ fun first second => decide (first.1.toInt ≤ second.1.toInt),
      ?_, switchPadding offset,
      (switchPadding_aligns offset).1, (switchPadding_aligns offset).2, ?_⟩
    · have sorted := @List.pairwise_mergeSort (Int32 × Int)
        (fun first second => decide (first.1.toInt ≤ second.1.toInt))
        (fun _ _ _ first second => by simp only [decide_eq_true_eq] at *; omega)
        (fun _ _ => by simp only [Bool.or_eq_true, decide_eq_true_eq]; omega)
        (pairs.map fun pair => (pair.1, (placedAt pair.2 : Int) - offset))
      simpa only [decide_eq_true_eq] using sorted
    · simp only [map, bytes, List.length_map, List.append_assoc]
  | returnValue type => rfl
  | returnVoid => rfl
  | athrow => rfl

end Branch

/-! ## One round of widening -/

namespace Layout

/-- How a round of widening moves from one state `(wide, changed)` to a later one: no branch is
narrowed, a change is never forgotten, a new change widens a branch that was short, and without
a change nothing is widened. -/
structure Widens (before after : Array Bool × Bool) : Prop where
  size : after.1.size = before.1.size
  keeps : ∀ index : Nat, before.1[index]? = some true → after.1[index]? = some true
  remembers : before.2 = true → after.2 = true
  widensShort : after.2 = true →
    before.2 = true ∨ ∃ index : Nat, before.1[index]? = some false ∧ after.1[index]? = some true
  still : after.2 = false → after.1 = before.1

namespace Widens

/-- A state that changed nothing comes from one that had changed nothing. -/
theorem unchanged_before {before after : Array Bool × Bool} (widens : Widens before after)
    (unchanged : after.2 = false) : before.2 = false := by
  cases changed : before.2 with
  | false => rfl
  | true => rw [widens.remembers changed] at unchanged; cases unchanged

theorem refl (state : Array Bool × Bool) : Widens state state :=
  ⟨rfl, fun _ => id, id, fun changed => .inl changed, fun _ => rfl⟩

theorem trans {first second third : Array Bool × Bool} (early : Widens first second)
    (late : Widens second third) : Widens first third where
  size := late.size.trans early.size
  keeps index wasWide := late.keeps index (early.keeps index wasWide)
  remembers changed := late.remembers (early.remembers changed)
  widensShort changed := by
    rcases late.widensShort changed with earlier | ⟨index, short, widened⟩
    · rcases early.widensShort earlier with first | ⟨index, short, widened⟩
      · exact .inl first
      · exact .inr ⟨index, short, late.keeps index widened⟩
    · -- a branch short in the middle state was short at the start too
      refine .inr ⟨index, ?_, widened⟩
      have inside : index < first.1.size := by
        rw [← early.size]
        exact (Array.getElem?_eq_some_iff.mp short).1
      rw [Array.getElem?_eq_getElem inside]
      cases atStart : first.1[index] with
      | false => rfl
      | true =>
        have kept := early.keeps index (by rw [Array.getElem?_eq_getElem inside, atStart])
        rw [short] at kept
        cases kept
  still unchanged := by
    rw [late.still unchanged, early.still (late.unchanged_before unchanged)]

/-- Widening a branch that is short, or once something already changed. -/
theorem widen {wide : Array Bool} {changed : Bool} {index : Nat}
    (short : wide[index]? = some false ∨ changed = true) :
    Widens (wide, changed) (wide.set! index true, true) where
  size := Array.size_set! _ _ _
  keeps other wasWide := by
    rw [Array.set!_eq_setIfInBounds, Array.getElem?_setIfInBounds]
    split_ifs with same inside
    · rfl
    · exact absurd (same ▸ (Array.getElem?_eq_some_iff.mp wasWide).1) inside
    · exact wasWide
  remembers _ := rfl
  widensShort _ := by
    rcases short with short | changed
    · refine .inr ⟨index, short, ?_⟩
      rw [Array.set!_eq_setIfInBounds, Array.getElem?_setIfInBounds]
      simp [(Array.getElem?_eq_some_iff.mp short).1]
    · exact .inl changed
  still unchanged := by cases unchanged

end Widens

/-- What a round that changed nothing has seen of a short branch at `index`: every target is
placed, at a distance from the branch that fits in 16 bits. -/
def ReachesShort (layout : Layout) (index : Nat) (branch : Branch Label) : Prop :=
  ∀ target ∈ branch.targets, ∃ offset, layout.labelOffset target = .ok offset ∧
    fitsShort (offset - (layout.offsets[index]?.getD 0 : Int)) = true

/-- Looking at the targets of one short branch. -/
theorem targets_widen {layout : Layout} {index : Nat} {branch : Branch Label}
    {start result : Array Bool × Bool} (short : start.1[index]? = some false)
    (looked : branch.targets.foldlM (fun (state : Array Bool × Bool) target => do
        let offset ← layout.labelOffset target
        let here := (layout.offsets[index]?.getD 0 : Int)
        if fitsShort (offset - here) then pure state
        else pure (state.1.set! index true, true)) start = .ok result) :
    Widens start result ∧ (result.2 = false → layout.ReachesShort index branch) := by
  obtain ⟨widens, each⟩ := foldlM_establishes Widens Widens.refl (fun _ _ _ => Widens.trans)
    (fun (state : Array Bool × Bool) target => state.2 = false →
      ∃ offset, layout.labelOffset target = .ok offset ∧
        fitsShort (offset - (layout.offsets[index]?.getD 0 : Int)) = true)
    (fun _ _ _ done widens unchanged => done (widens.unchanged_before unchanged))
    (fun state target next _ fromStart stepped => by
      obtain ⟨offset, found, stepped⟩ := bind_eq_ok stepped
      dsimp only at stepped
      split at stepped
      · rename_i fits
        cases stepped
        exact ⟨Widens.refl _, fun _ => ⟨offset, found, fits⟩⟩
      · cases stepped
        -- the branch is still short unless something has already changed
        have stillShort : state.1[index]? = some false ∨ state.2 = true := by
          cases changed : state.2 with
          | true => exact .inr rfl
          | false => exact .inl (by rw [fromStart.still changed]; exact short)
        exact ⟨Widens.widen stillShort, fun unchanged => by cases unchanged⟩)
    looked
  exact ⟨widens, fun unchanged target member => each target member unchanged⟩

/-- A round of widening from a width for each entry: it widens only short branches, and when it
changes nothing, every short branch reaches each of its targets in 16 bits. -/
theorem widenOnce_widens {lowered : Array Lowered} {wide : Array Bool} {layout : Layout}
    {result : Array Bool × Bool} (sized : wide.size = lowered.size)
    (widened : widenOnce lowered wide layout = .ok result) :
    Widens (wide, false) result ∧ (result.2 = false → ∀ index branch,
      lowered[index]? = some (.branch branch) → wide[index]? = some false →
        branch.hasShortForm = true → layout.ReachesShort index branch) := by
  obtain ⟨widens, each⟩ := foldlM_establishes Widens Widens.refl (fun _ _ _ => Widens.trans)
    (fun (state : Array Bool × Bool) (item : Lowered × Nat) => state.2 = false →
      ∀ branch, item.1 = .branch branch → state.1[item.2]? = some false →
        branch.hasShortForm = true → layout.ReachesShort item.2 branch)
    (fun _ _ _ done widens unchanged => by
      rw [widens.still unchanged]
      exact done (widens.unchanged_before unchanged))
    (fun state item next member fromStart stepped => by
      obtain ⟨entry, index⟩ := item
      have inside : index < state.1.size := by
        rw [fromStart.size, sized, ← Array.length_toList]
        exact (List.getElem?_eq_some_iff.mp (List.mem_zipIdx_iff_getElem?.mp member)).1
      cases entry with
      | branch branch =>
        dsimp only at stepped
        split at stepped
        · rename_i skipped
          cases stepped
          refine ⟨Widens.refl _, fun _ _ same short hasShort => ?_⟩
          cases same
          rw [short, Option.getD_some, hasShort] at skipped
          cases skipped
        · rename_i looked
          -- the branch is short here: the round has not widened it
          have short : state.1[index]? = some false := by
            rw [Array.getElem?_eq_getElem inside] at looked ⊢
            simp only [Option.getD_some] at looked
            cases atIndex : state.1[index] with
            | false => rfl
            | true => rw [atIndex, Bool.true_or] at looked; exact absurd rfl looked
          obtain ⟨widens, reaches⟩ := targets_widen short stepped
          refine ⟨widens, fun unchanged _ same _ _ => ?_⟩
          cases same
          exact reaches unchanged
      | bytes _ =>
        cases stepped
        exact ⟨Widens.refl _, fun _ _ same => by cases same⟩
      | label _ =>
        cases stepped
        exact ⟨Widens.refl _, fun _ _ same => by cases same⟩)
    widened
  refine ⟨widens, fun unchanged index branch found short hasShort => ?_⟩
  have member : (Lowered.branch branch, index) ∈ lowered.toList.zipIdx :=
    List.mem_zipIdx_iff_getElem?.mpr (by simpa using found)
  exact each _ member unchanged branch rfl (by rw [widens.still unchanged]; exact short) hasShort

end Layout

/-! ## Widening settles -/

namespace Layout

/-- Widths that only grew leave no more short branches than before. -/
theorem count_false_le : ∀ {before after : List Bool}, after.length = before.length →
    (∀ index : Nat, before[index]? = some true → after[index]? = some true) →
      after.count false ≤ before.count false
  | [], [], _, _ => le_rfl
  | first :: before, now :: after, sameLength, keeps => by
    have rest := count_false_le (Nat.succ.inj sameLength) fun index wasWide =>
      keeps (index + 1) wasWide
    cases first with
    | false => cases now <;> simp <;> omega
    | true =>
      have stays : now = true := by simpa using keeps 0 rfl
      subst stays
      simpa [List.count_cons] using rest

/-- Widths that only grew, one of them from short to wide, leave fewer short branches. -/
theorem count_false_lt : ∀ {before after : List Bool}, after.length = before.length →
    (∀ index : Nat, before[index]? = some true → after[index]? = some true) →
    (∃ index : Nat, before[index]? = some false ∧ after[index]? = some true) →
      after.count false < before.count false
  | [], [], _, _, ⟨_, short, _⟩ => by simp at short
  | first :: before, now :: after, sameLength, keeps, ⟨index, short, widened⟩ => by
    have tailKeeps : ∀ index : Nat, before[index]? = some true → after[index]? = some true :=
      fun index wasWide => keeps (index + 1) wasWide
    cases index with
    | zero =>
      -- the first branch is the one widened
      simp only [List.getElem?_cons_zero, Option.some.injEq] at short widened
      subst short widened
      have rest := count_false_le (Nat.succ.inj sameLength) tailKeeps
      simp
      omega
    | succ index =>
      have rest := count_false_lt (Nat.succ.inj sameLength) tailKeeps ⟨index, short, widened⟩
      cases first with
      | false => cases now <;> simp <;> omega
      | true =>
        have stays : now = true := by simpa using keeps 0 rfl
        subst stays
        simpa using rest

/-- The rounds of widening, given more rounds than short branches: they end with a layout whose
round widens nothing, and no branch that was wide is narrowed on the way. -/
theorem settle_settles {lowered : Array Lowered} :
    ∀ (rounds : Nat) (wide : Array Bool) (result : Array Bool × Layout),
      wide.size = lowered.size → wide.toList.count false < rounds →
      settle lowered rounds wide = .ok result →
        (∀ index : Nat, wide[index]? = some true → result.1[index]? = some true) ∧
        result.1.size = lowered.size ∧ build lowered result.1 = .ok result.2 ∧
        widenOnce lowered result.1 result.2 = .ok (result.1, false)
  | 0, _, _, _, enough, _ => absurd enough (Nat.not_lt_zero _)
  | rounds + 1, wide, result, sized, enough, settled => by
    rw [settle] at settled
    obtain ⟨layout, built, afterBuild⟩ := bind_eq_ok settled
    obtain ⟨⟨widened, changed⟩, round, afterRound⟩ := bind_eq_ok afterBuild
    obtain ⟨widens, _⟩ := widenOnce_widens sized round
    cases changed with
    | true =>
      -- the round widened a short branch, so fewer are left for the rounds after it
      have fewer : widened.toList.count false < wide.toList.count false := by
        refine count_false_lt (by simpa using widens.size) (fun index wasWide => ?_) ?_
        · simpa using widens.keeps index (by simpa using wasWide)
        · obtain ⟨index, short, longer⟩ := (widens.widensShort rfl).resolve_left
            fun wasChanged => by cases wasChanged
          exact ⟨index, by simpa using short, by simpa using longer⟩
      obtain ⟨keeps, sizedLast, builtLast, stable⟩ := settle_settles rounds widened result
        (widens.size.trans sized) (by omega) afterRound
      exact ⟨fun index wasWide => keeps index (widens.keeps index wasWide), sizedLast, builtLast,
        stable⟩
    | false =>
      have same : widened = wide := widens.still rfl
      subst same
      simp only [Bool.false_eq_true, ↓reduceIte] at afterRound
      cases afterRound
      exact ⟨fun _ => id, sized, built, round⟩

end Layout

/-! ## Laying out -/

/-- A successful fold over the items of a list with their positions keeps a property of the
number of items gone through, when each step keeps it. -/
theorem foldlM_zipIdx_keeps {α δ ε : Type} {step : δ → α × Nat → Except ε δ}
    (invariant : Nat → δ → Prop) :
    ∀ (items : List α) (start : Nat) {init final : δ},
      (∀ acc index item next, items[index]? = some item → invariant (start + index) acc →
        step acc (item, start + index) = .ok next → invariant (start + index + 1) next) →
      invariant start init → (items.zipIdx start).foldlM step init = .ok final →
        invariant (start + items.length) final
  | [], start, init, final, _, holds, folded => by
    cases folded
    exact holds
  | item :: items, start, init, final, steps, holds, folded => by
    rw [List.zipIdx_cons, List.foldlM_cons] at folded
    obtain ⟨next, stepped, folded⟩ := bind_eq_ok folded
    have first := steps init 0 item next rfl holds stepped
    have rest := foldlM_zipIdx_keeps invariant items (start + 1)
      (fun acc index other after found kept stepped => by
        have shifted : start + 1 + index = start + (index + 1) := by omega
        rw [shifted] at kept stepped ⊢
        exact steps acc (index + 1) other after found kept stepped)
      first folded
    rwa [List.length_cons, show start + (items.length + 1) = start + 1 + items.length by omega]

namespace Lowered

/-- The bytes an entry takes from byte `offset`, its branch short or wide. -/
def width (entry : Lowered) (offset : Nat) (wide : Bool) : Nat :=
  match entry with
  | bytes code => code.length
  | label _ => 0
  | branch jump => jump.size offset wide

end Lowered

namespace Layout

/-- The byte at which entry `index` starts: the widths of the entries before it, each from its
own start. -/
def startOf (lowered : Array Lowered) (wide : Array Bool) : Nat → Nat
  | 0 => 0
  | index + 1 =>
    let start := startOf lowered wide index
    start + ((lowered[index]?.map fun entry => entry.width start (wide[index]?.getD false)).getD 0)

theorem startOf_succ {lowered : Array Lowered} {wide : Array Bool} {index : Nat} {entry : Lowered}
    (found : lowered[index]? = some entry) :
    startOf lowered wide (index + 1) =
      startOf lowered wide index + entry.width (startOf lowered wide index) (wide[index]?.getD false) := by
  simp only [startOf, found, Option.map_some, Option.getD_some]

/-- The layout of the first `count` entries, as `build` has it after them: where each starts,
where the next one starts, and where each of their labels stands. -/
structure BuiltUpTo (lowered : Array Lowered) (wide : Array Bool) (count : Nat)
    (state : Layout × Nat) : Prop where
  offsets : state.1.offsets.toList = (List.range count).map (startOf lowered wide)
  next : state.2 = startOf lowered wide count
  placed : ∀ index < count, ∀ label, lowered.toList[index]? = some (.label label) →
    state.1.labels[label]? = some (startOf lowered wide index)
  onlyPlaced : ∀ label offset, state.1.labels[label]? = some offset →
    ∃ index < count, lowered.toList[index]? = some (.label label)

/-- One entry more, when it places no label: the layout only records where it starts. -/
theorem BuiltUpTo.push {lowered : Array Lowered} {wide : Array Bool} {count : Nat}
    {layout : Layout} {entry : Lowered} (built : BuiltUpTo lowered wide count (layout, startOf lowered wide count))
    (found : lowered.toList[count]? = some entry) (noLabel : ∀ label, entry ≠ .label label) :
    BuiltUpTo lowered wide (count + 1)
      ({ layout with offsets := layout.offsets.push (startOf lowered wide count) },
        startOf lowered wide count + entry.width (startOf lowered wide count) (wide[count]?.getD false)) where
  offsets := by
    rw [Array.toList_push, built.offsets, List.range_succ, List.map_append, List.map_singleton]
  next := (startOf_succ (by simpa using found)).symm
  placed index below label isLabel := by
    rcases Nat.lt_succ_iff_lt_or_eq.mp below with earlier | rfl
    · exact built.placed index earlier label isLabel
    · rw [found, Option.some.injEq] at isLabel
      exact absurd isLabel (noLabel label)
  onlyPlaced label offset stands := by
    obtain ⟨index, below, isLabel⟩ := built.onlyPlaced label offset stands
    exact ⟨index, Nat.lt_succ_of_lt below, isLabel⟩

/-- One label more, not placed before: the layout records where it starts and places the label
there, where the next entry starts. -/
theorem BuiltUpTo.insert {lowered : Array Lowered} {wide : Array Bool} {count : Nat}
    {layout : Layout} {label : Label}
    (built : BuiltUpTo lowered wide count (layout, startOf lowered wide count))
    (found : lowered.toList[count]? = some (.label label))
    (fresh : ¬layout.labels.contains label = true) :
    BuiltUpTo lowered wide (count + 1)
      ({ offsets := layout.offsets.push (startOf lowered wide count),
          labels := layout.labels.insert label (startOf lowered wide count) },
        startOf lowered wide count) := by
  -- the label is new: every label placed before it is another one
  have other : ∀ earlier, layout.labels[earlier]?.isSome → (label == earlier) = false := by
    intro earlier placedBefore
    apply Bool.eq_false_iff.mpr
    intro same
    rw [beq_iff_eq] at same
    subst same
    exact fresh (by rw [Std.HashMap.contains_eq_isSome_getElem?]; exact placedBefore)
  refine ⟨?_, ?_, fun index below placed isLabel => ?_, fun placed offset stands => ?_⟩
  · rw [Array.toList_push, built.offsets, List.range_succ, List.map_append, List.map_singleton]
  · rw [startOf_succ (by simpa using found)]
    rfl
  · rw [Std.HashMap.getElem?_insert]
    rcases Nat.lt_succ_iff_lt_or_eq.mp below with earlier | rfl
    · have before := built.placed index earlier placed isLabel
      rw [other placed (by rw [before]; rfl)]
      exact before
    · rw [found, Option.some.injEq, Lowered.label.injEq] at isLabel
      subst isLabel
      simp
  · rw [Std.HashMap.getElem?_insert] at stands
    split at stands
    · rename_i same
      rw [beq_iff_eq] at same
      subst same
      exact ⟨count, Nat.lt_succ_self count, found⟩
    · obtain ⟨earlier, below, isLabel⟩ := built.onlyPlaced placed offset stands
      exact ⟨earlier, Nat.lt_succ_of_lt below, isLabel⟩

/-- Laying entries out records where each starts, the byte the start of the next one is after
the width of the one before, and places each label where the next entry starts. -/
theorem build_places {lowered : Array Lowered} {wide : Array Bool} {layout : Layout}
    (built : build lowered wide = .ok layout) :
    layout.offsets.toList = (List.range lowered.size).map (startOf lowered wide) ∧
    (∀ (index : Nat) label, lowered[index]? = some (.label label) →
      layout.labels[label]? = some (startOf lowered wide index)) ∧
    (∀ label offset, layout.labels[label]? = some offset →
      ∃ index : Nat, lowered[index]? = some (.label label)) := by
  rw [build] at built
  obtain ⟨⟨final, next⟩, folded, returned⟩ := bind_eq_ok built
  cases returned
  have empty : BuiltUpTo lowered wide 0 (⟨#[], {}⟩, 0) :=
    ⟨rfl, rfl, fun _ below => absurd below (Nat.not_lt_zero _),
      fun label offset stands => by simp at stands⟩
  have done := foldlM_zipIdx_keeps (BuiltUpTo lowered wide) lowered.toList 0
    (fun state index entry next found built stepped => by
      obtain ⟨layout, offset⟩ := state
      rw [Nat.zero_add] at built stepped ⊢
      obtain rfl := built.next
      cases entry with
      | bytes code =>
        cases stepped
        exact built.push found fun _ same => by cases same
      | branch branch =>
        cases stepped
        exact built.push found fun _ same => by cases same
      | label label =>
        dsimp only at stepped
        split at stepped
        · cases stepped
        · rename_i fresh
          cases stepped
          exact built.insert found fresh)
    empty folded
  rw [Nat.zero_add, Array.length_toList] at done
  refine ⟨done.offsets, fun index label isLabel => ?_, fun label offset stands => ?_⟩
  · have inside : index < lowered.size := (Array.getElem?_eq_some_iff.mp isLabel).1
    exact done.placed index inside label (by simpa using isLabel)
  · obtain ⟨index, _, isLabel⟩ := done.onlyPlaced label offset stands
    exact ⟨index, by simpa using isLabel⟩

end Layout

/-! ## Writing the code -/

section Traversals

variable {τ υ ε : Type}

theorem forall_ok_of_mapM_ok {f : τ → Except ε υ} :
    ∀ {items : List τ} {values : List υ}, items.mapM f = .ok values →
      ∀ item ∈ items, ∃ value, f item = .ok value
  | [], _, _ => fun _ member => by cases member
  | item :: items, values, traversed => by
    rw [List.mapM_cons] at traversed
    obtain ⟨first, found, traversed⟩ := bind_eq_ok traversed
    obtain ⟨rest, restFound, _⟩ := bind_eq_ok traversed
    intro other member
    rcases List.mem_cons.mp member with rfl | later
    · exact ⟨first, found⟩
    · exact forall_ok_of_mapM_ok restFound other later

theorem mapM_eq_map {f : τ → Except ε υ} {g : τ → υ} :
    ∀ {items : List τ}, (∀ item ∈ items, f item = .ok (g item)) → items.mapM f = .ok (items.map g)
  | [], _ => rfl
  | item :: items, each => by
    rw [List.mapM_cons, each item List.mem_cons_self,
      mapM_eq_map fun other member => each other (List.mem_cons_of_mem item member)]
    rfl

namespace Branch

/-- A branch whose targets all map to a value maps to the branch of those values. -/
theorem mapM_eq_map {f : τ → Except ε υ} {g : τ → υ} {branch : Branch τ}
    (each : ∀ target ∈ branch.targets, f target = .ok (g target)) :
    branch.mapM f = .ok (branch.map g) := by
  cases branch with
  | ifZero _ target | ifICmp _ target | ifACmp _ target | ifNull _ target | goto target
  | jsr target =>
    simp only [mapM, map, each target (by simp [targets])]
    rfl
  | tableSwitch default low targets =>
    have listed : targets.mapM f = .ok (targets.map g) :=
      ClassKit.mapM_eq_map fun target member => each target (by simp [Branch.targets, member])
    simp only [mapM, map, each default (by simp [Branch.targets]), listed]
    rfl
  | lookupSwitch default pairs =>
    simp only [mapM, map, each default (by simp [Branch.targets])]
    -- each pair keeps its key and maps its target
    rw [ClassKit.mapM_eq_map (g := fun pair => (pair.1, g pair.2))]
    · rfl
    · rintro ⟨key, target⟩ member
      have named : target ∈ (lookupSwitch default pairs).targets := by
        simp only [Branch.targets, List.mem_cons, List.mem_map]
        exact .inr ⟨(key, target), member, rfl⟩
      simp only [each target named]
      rfl
  | returnValue _ | returnVoid | athrow => rfl

/-- A branch maps only when each of its targets does. -/
theorem targets_ok_of_mapM_ok {f : τ → Except ε υ} {branch : Branch τ} {mapped : Branch υ}
    (ran : branch.mapM f = .ok mapped) : ∀ target ∈ branch.targets, ∃ value, f target = .ok value := by
  cases branch with
  | ifZero _ target | ifICmp _ target | ifACmp _ target | ifNull _ target | goto target
  | jsr target =>
    intro other member
    simp only [targets, List.mem_singleton] at member
    subst member
    cases found : f other with
    | error err => rw [mapM, found] at ran; cases ran
    | ok value => exact ⟨value, rfl⟩
  | tableSwitch default low targets =>
    obtain ⟨first, found, ran⟩ := bind_eq_ok ran
    obtain ⟨rest, restFound, _⟩ := bind_eq_ok ran
    intro target member
    rcases List.mem_cons.mp member with rfl | later
    · exact ⟨first, found⟩
    · exact forall_ok_of_mapM_ok restFound target later
  | lookupSwitch default pairs =>
    obtain ⟨first, found, ran⟩ := bind_eq_ok ran
    obtain ⟨rest, restFound, _⟩ := bind_eq_ok ran
    intro target member
    rcases List.mem_cons.mp member with rfl | later
    · exact ⟨first, found⟩
    · obtain ⟨⟨key, target⟩, pairMember, rfl⟩ := List.mem_map.mp later
      obtain ⟨value, pairFound⟩ := forall_ok_of_mapM_ok restFound (key, target) pairMember
      dsimp only at pairFound
      cases targetFound : f target with
      | error err => rw [targetFound] at pairFound; cases pairFound
      | ok value => exact ⟨value, rfl⟩
  | returnValue _ | returnVoid | athrow => intro _ member; cases member

end Branch

end Traversals

namespace Layout

theorem labelOffset_eq_ok {layout : Layout} {label : Label} {offset : Nat} :
    layout.labelOffset label = .ok offset ↔ layout.labels[label]? = some offset := by
  unfold labelOffset
  split <;> simp_all

/-- Where each label stands in a layout, zero for a label it does not place. -/
def placedAt (layout : Layout) (label : Label) : Nat := (layout.labels[label]?).getD 0

/-- The bytes written for entry `index`: an instruction's own, none for a label, and a branch's
with its targets as distances from its start. -/
def pieceAt (lowered : Array Lowered) (wide : Array Bool) (layout : Layout) (index : Nat) :
    List UInt8 :=
  match lowered[index]? with
  | some (.bytes code) => code
  | some (.branch jump) =>
    let start := startOf lowered wide index
    (jump.map fun target => (layout.placedAt target : Int) - start).bytes start
      (wide[index]?.getD false)
  | _ => []

theorem length_pieceAt {lowered : Array Lowered} {wide : Array Bool} {layout : Layout}
    {index : Nat} {entry : Lowered} (found : lowered[index]? = some entry) :
    (pieceAt lowered wide layout index).length =
      entry.width (startOf lowered wide index) (wide[index]?.getD false) := by
  cases entry with
  | bytes code => simp only [pieceAt, found, Lowered.width]
  | label _ => simp only [pieceAt, found, Lowered.width, List.length_nil]
  | branch jump => simp only [pieceAt, found, Lowered.width, Branch.length_bytes, Branch.size_map]

/-- The pieces of the entries before `count` fill the bytes up to the start of entry `count`. -/
theorem length_pieces {lowered : Array Lowered} {wide : Array Bool} {layout : Layout} :
    ∀ count ≤ lowered.size,
      ((List.range count).map (pieceAt lowered wide layout)).flatten.length =
        startOf lowered wide count
  | 0, _ => rfl
  | count + 1, inside => by
    obtain ⟨entry, found⟩ : ∃ entry, lowered[count]? = some entry :=
      ⟨_, Array.getElem?_eq_getElem (by omega)⟩
    rw [List.range_succ, List.map_append, List.flatten_append, List.length_append,
      length_pieces count (by omega), List.map_singleton, List.flatten_singleton,
      length_pieceAt found, startOf_succ found]

/-- The code written for the first `count` entries: their pieces in order, with every target of
their branches placed. -/
structure EmittedUpTo (lowered : Array Lowered) (wide : Array Bool) (layout : Layout)
    (count : Nat) (code : Array UInt8) : Prop where
  pieces : code.toList = ((List.range count).map (pieceAt lowered wide layout)).flatten
  placed : ∀ index < count, ∀ jump, lowered[index]? = some (.branch jump) →
    ∀ target ∈ jump.targets, target ∈ layout.labels

namespace EmittedUpTo

variable {lowered : Array Lowered} {wide : Array Bool} {layout : Layout} {count : Nat}
  {code : Array UInt8}

theorem empty : EmittedUpTo lowered wide layout 0 #[] :=
  ⟨rfl, fun _ below => absurd below (Nat.not_lt_zero _)⟩

/-- Writing the next entry's piece; only a branch has targets to place. -/
theorem append (emitted : EmittedUpTo lowered wide layout count code) (piece : List UInt8)
    (isPiece : pieceAt lowered wide layout count = piece)
    (placed : ∀ jump, lowered[count]? = some (.branch jump) →
      ∀ target ∈ jump.targets, target ∈ layout.labels) :
    EmittedUpTo lowered wide layout (count + 1) (code ++ piece.toArray) where
  pieces := by
    rw [Array.toList_append, emitted.pieces, List.range_succ, List.map_append, List.flatten_append,
      List.map_singleton, List.flatten_singleton, isPiece, List.toList_toArray]
  placed index below jump found := by
    rcases Nat.lt_succ_iff_lt_or_eq.mp below with earlier | rfl
    · exact emitted.placed index earlier jump found
    · exact placed jump found

theorem bytes (emitted : EmittedUpTo lowered wide layout count code) {piece : List UInt8}
    (found : lowered[count]? = some (.bytes piece)) :
    EmittedUpTo lowered wide layout (count + 1) (code ++ piece.toArray) :=
  emitted.append piece (by simp only [pieceAt, found]) fun _ other => by
    rw [found] at other
    cases other

theorem label (emitted : EmittedUpTo lowered wide layout count code) {label : Label}
    (found : lowered[count]? = some (.label label)) :
    EmittedUpTo lowered wide layout (count + 1) code := by
  have appended := emitted.append [] (by simp only [pieceAt, found]) fun _ other => by
    rw [found] at other
    cases other
  rwa [Array.append_empty] at appended

/-- Writing a branch whose targets all have offsets in the layout, at the start the layout
gives it. -/
theorem branch (emitted : EmittedUpTo lowered wide layout count code) {jump : Branch Label}
    {relative : Branch Int} (found : lowered[count]? = some (.branch jump))
    (starts : layout.offsets[count]?.getD 0 = startOf lowered wide count)
    (mapped : jump.mapM (fun target => do
      let placed ← layout.labelOffset target
      pure ((placed : Int) - (layout.offsets[count]?.getD 0 : Nat))) = .ok relative) :
    EmittedUpTo lowered wide layout (count + 1)
      (code ++ (relative.bytes (layout.offsets[count]?.getD 0) (wide[count]?.getD false)).toArray) := by
  -- every target has an offset, and the branch's distances count from its start
  have each : ∀ target ∈ jump.targets, ∃ offset, layout.labels[target]? = some offset := by
    intro target member
    obtain ⟨_, resolved⟩ := Branch.targets_ok_of_mapM_ok mapped target member
    obtain ⟨offset, found, _⟩ := bind_eq_ok resolved
    exact ⟨offset, labelOffset_eq_ok.mp found⟩
  have distances : relative = jump.map fun target =>
      (layout.placedAt target : Int) - startOf lowered wide count := by
    rw [Branch.mapM_eq_map (g := fun target =>
      (layout.placedAt target : Int) - startOf lowered wide count)] at mapped
    · exact (Except.ok.inj mapped).symm
    · intro target member
      obtain ⟨offset, stands⟩ := each target member
      simp only [labelOffset_eq_ok.mpr stands, placedAt, stands, starts, Option.getD_some]
      rfl
  refine emitted.append _ ?_ fun other found' target member => ?_
  · simp only [pieceAt, found, starts, distances]
  · rw [found, Option.some.injEq, Lowered.branch.injEq] at found'
    subst found'
    obtain ⟨offset, stands⟩ := each target member
    exact Std.HashMap.mem_iff_isSome_getElem?.mpr (by rw [stands]; rfl)

end EmittedUpTo

end Layout

/-! ## Writing a body -/

section Forall₂

variable {α β : Type} {related : α → β → Prop} {first : List α} {second : List β}

theorem forall₂_getElem?_left (both : List.Forall₂ related first second) {index : Nat} {a : α}
    (found : first[index]? = some a) : ∃ b, second[index]? = some b ∧ related a b := by
  obtain ⟨inside, rfl⟩ := List.getElem?_eq_some_iff.mp found
  have insideSecond : index < second.length := both.length_eq ▸ inside
  exact ⟨second[index], List.getElem?_eq_getElem insideSecond, both.get inside insideSecond⟩

theorem forall₂_getElem?_right (both : List.Forall₂ related first second) {index : Nat} {b : β}
    (found : second[index]? = some b) : ∃ a, first[index]? = some a ∧ related a b := by
  obtain ⟨inside, rfl⟩ := List.getElem?_eq_some_iff.mp found
  have insideFirst : index < first.length := both.length_eq ▸ inside
  exact ⟨first[index], List.getElem?_eq_getElem insideFirst, both.get insideFirst inside⟩

end Forall₂

namespace Entry

/-- How an entry is lowered for writing: a label and a branch stay as they are, an instruction
becomes its bytes. -/
def LowersAs : Entry → Lowered → Prop
  | label placed, lowered => lowered = .label placed
  | instruction _, lowered => ∃ code, lowered = .bytes code
  | branch jump, lowered => lowered = .branch jump

theorem eq_label_of_lowersAs {entry : Entry} {placed : Label}
    (lowers : entry.LowersAs (.label placed)) : entry = .label placed := by
  cases entry with
  | label other =>
    simp only [LowersAs, Lowered.label.injEq] at lowers
    rw [lowers]
  | instruction _ =>
    obtain ⟨_, other⟩ := lowers
    cases other
  | branch _ => cases lowers

end Entry

namespace Layout

theorem offsets_getD {lowered : Array Lowered} {wide : Array Bool} {layout : Layout}
    (offsets : layout.offsets.toList = (List.range lowered.size).map (startOf lowered wide))
    {index : Nat} (inside : index < lowered.size) :
    layout.offsets[index]?.getD 0 = startOf lowered wide index := by
  rw [← Array.getElem?_toList, offsets, List.getElem?_map, List.getElem?_range inside]
  rfl

end Layout

namespace Body

/-- A label the layout of a body's lowered entries places is placed by a label entry of the
body. -/
theorem label_mem_of_placed {body : Body} {lowered : Array Lowered} {layout : Layout}
    (shaped : List.Forall₂ Entry.LowersAs body.entries.toList lowered.toList)
    (onlyPlaced : ∀ label offset, layout.labels[label]? = some offset →
      ∃ index : Nat, lowered[index]? = some (.label label))
    {target : Label} (placed : target ∈ layout.labels) : Entry.label target ∈ body.entries.toList := by
  obtain ⟨offset, stands⟩ :=
    Option.isSome_iff_exists.mp (Std.HashMap.mem_iff_isSome_getElem?.mp placed)
  obtain ⟨labelIndex, isLabel⟩ := onlyPlaced target offset stands
  obtain ⟨source, sourceFound, lowers⟩ :=
    forall₂_getElem?_right shaped (by rw [Array.getElem?_toList]; exact isLabel)
  rw [← Entry.eq_label_of_lowersAs lowers]
  exact List.mem_of_getElem? sourceFound

/-- Code written from a body's lowered entries, with the widths of a round of widening that
changed nothing and that round's layout, is laid out by the layout rule. -/
theorem laidOut_of_emitted {body : Body} {lowered : Array Lowered} {wide : Array Bool}
    {layout : Layout} {code : Array UInt8}
    (shaped : List.Forall₂ Entry.LowersAs body.entries.toList lowered.toList)
    (sized : wide.size = lowered.size) (built : Layout.build lowered wide = .ok layout)
    (stable : Layout.widenOnce lowered wide layout = .ok (wide, false))
    (emitted : Layout.EmittedUpTo lowered wide layout lowered.size code) :
    body.LaidOut code.toList := by
  obtain ⟨offsets, placed, onlyPlaced⟩ := Layout.build_places built
  have reaches := (Layout.widenOnce_widens sized stable).2 rfl
  have sameSize : lowered.size = body.entries.size := by simpa using shaped.length_eq.symm
  refine ⟨(List.range lowered.size).map (Layout.pieceAt lowered wide layout), layout.placedAt,
    by rw [List.length_map, List.length_range, sameSize], emitted.pieces, ?_⟩
  intro index entry piece found pieceFound
  have inside : index < lowered.size := sameSize ▸ (Array.getElem?_eq_some_iff.mp found).1
  have isPiece : piece = Layout.pieceAt lowered wide layout index := by
    rw [List.getElem?_map, List.getElem?_range inside, Option.map_some, Option.some.injEq] at pieceFound
    exact pieceFound.symm
  -- the pieces before an entry fill the bytes up to its start
  have starts : (((List.range lowered.size).map (Layout.pieceAt lowered wide layout)).take
      index).flatten.length = Layout.startOf lowered wide index := by
    rw [← List.map_take, List.take_range, Nat.min_eq_left (Nat.le_of_lt inside)]
    exact Layout.length_pieces index (Nat.le_of_lt inside)
  obtain ⟨lowered', loweredFound, lowers⟩ :=
    forall₂_getElem?_left shaped (by rw [Array.getElem?_toList]; exact found)
  rw [Array.getElem?_toList] at loweredFound
  rw [starts, isPiece]
  cases entry with
  | label label =>
    subst lowers
    refine ⟨by simp only [Layout.pieceAt, loweredFound], ?_⟩
    simp only [Layout.placedAt, placed index label loweredFound, Option.getD_some]
  | instruction _ => trivial
  | branch jump =>
    subst lowers
    refine ⟨fun target member => label_mem_of_placed shaped onlyPlaced
      (emitted.placed index inside jump loweredFound target member), ?_⟩
    simp only [Layout.pieceAt, loweredFound]
    refine Branch.bytes_writtenAt _ _ jump _ fun narrow short target member => ?_
    -- a branch left short was looked at by the last round, which found its target near
    have shortThere : wide[index]? = some false := by
      rw [Array.getElem?_eq_getElem (sized ▸ inside)] at narrow ⊢
      rw [Option.getD_some] at narrow
      rw [narrow]
    obtain ⟨offset, resolved, fits⟩ := reaches index jump loweredFound shortThere short target member
    rw [Layout.offsets_getD offsets inside] at fits
    simpa only [Layout.placedAt, Layout.labelOffset_eq_ok.mp resolved, Option.getD_some]
      using fits

end Body

namespace Body

/-- Lowering keeps labels and branches and turns instructions into bytes. -/
theorem lowering_lowersAs (body : Body) :
    Meets (fun _ => True)
      (fun lowered => List.Forall₂ Entry.LowersAs body.entries.toList lowered.toList)
      (body.entries.mapM fun entry =>
        match entry with
        | .label label => pure (Lowered.label label)
        | .instruction instruction => Lowered.bytes <$> instruction.lower
        | .branch branch => pure (Lowered.branch branch) : PoolM (Array Lowered)) := by
  rw [Array.mapM_eq_mapM_toList]
  refine Meets.map (Meets.mapM fun entry _ => ?_)
  cases entry with
  | label _ => exact Meets.pure rfl
  | instruction _ =>
    exact Meets.map (Meets.unconstrained.mono (fun _ => id) fun code _ => ⟨code, rfl⟩)
  | branch _ => exact Meets.pure rfl

/-- Every body the writer writes comes out laid out by the layout rule. -/
theorem encode_laidOut (body : Body) (parameterSlots : Nat) :
    StateMeets (fun _ => True) (fun written => body.LaidOut written.code)
      (body.encode parameterSlots) := by
  unfold encode
  refine StateMeets.after fun _ => ?_
  extract_lets maxLocals afterLocals afterStack
  -- the limit checks either fail or go on with the same writing
  suffices writes : ∀ checked, StateMeets (fun _ => True)
      (fun written => body.LaidOut written.code) (afterLocals checked) by
    have afterChecks : ∀ checked, StateMeets (fun _ => True)
        (fun written => body.LaidOut written.code) (afterStack checked) := by
      intro checked
      dsimp only [afterStack]
      split
      · exact StateMeets.after writes
      · exact writes ()
    split
    · exact StateMeets.after afterChecks
    · exact afterChecks ()
  intro checked
  dsimp only [afterLocals]
  refine StateMeets.bind (StateMeets.pool (lowering_lowersAs body)) fun lowered shaped => ?_
  refine StateMeets.bind (Q := fun result =>
      Layout.settle lowered (lowered.size + 1) (Array.replicate lowered.size false) = .ok result)
    (StateMeets.pool (Meets.ofExcept ?_)) fun result settled => ?_
  · split
    · rename_i result found
      exact found
    · trivial
  obtain ⟨wide, layout⟩ := result
  obtain ⟨_, sized, built, stable⟩ := Layout.settle_settles _ _ _ Array.size_replicate
    (by simp) settled
  refine StateMeets.bind (Q := fun code => body.LaidOut code.toList)
    (StateMeets.pool (Meets.ofExcept ?_)) fun code laidOut => ?_
  · split
    · rename_i code emitted
      -- the code is written entry by entry, each branch at the start the layout gives it
      have written := foldlM_zipIdx_keeps (Layout.EmittedUpTo lowered wide layout)
        lowered.toList 0 (fun code index entry next found soFar stepped => by
          rw [Nat.zero_add] at soFar stepped ⊢
          rw [Array.getElem?_toList] at found
          cases entry with
          | bytes _ =>
            cases stepped
            exact soFar.bytes found
          | label _ =>
            cases stepped
            exact soFar.label found
          | branch jump =>
            obtain ⟨relative, mapped, appended⟩ := bind_eq_ok stepped
            cases appended
            exact soFar.branch found
              (Layout.offsets_getD (Layout.build_places built).1
                (Array.getElem?_eq_some_iff.mp found).1) mapped)
        Layout.EmittedUpTo.empty emitted
      rw [Nat.zero_add, Array.length_toList] at written
      exact laidOut_of_emitted shaped sized built stable written
    · trivial
  -- past the length check only the exception table is left, which does not touch the code
  dsimp only
  split
  · exact StateMeets.after fun _ => StateMeets.after fun _ => StateMeets.pure laidOut
  · exact StateMeets.after fun _ => StateMeets.pure laidOut

end Body

/-- The layout of written code. The rounds of widening, given more rounds than short branches,
never narrow a branch and end on a layout whose own round widens nothing; and every body the
writer writes is laid out by the layout rule: labels where the next entry starts, short jumps
only where their 16-bit distance fits, widened jumps in their 32-bit forms, switch operands
aligned to four bytes. -/
theorem jump_layout_settles_and_is_written :
    (∀ (lowered : Array Lowered) (rounds : Nat) (wide : Array Bool)
      (result : Array Bool × Layout),
      wide.size = lowered.size → wide.toList.count false < rounds →
      Layout.settle lowered rounds wide = .ok result →
        (∀ index : Nat, wide[index]? = some true → result.1[index]? = some true) ∧
        Layout.build lowered result.1 = .ok result.2 ∧
        Layout.widenOnce lowered result.1 result.2 = .ok (result.1, false)) ∧
    ∀ (body : Body) (parameterSlots : Nat),
      StateMeets (fun _ => True) (fun written => body.LaidOut written.code)
        (body.encode parameterSlots) :=
  ⟨fun _ _ _ _ sized enough settled =>
    let ⟨keeps, _, built, stable⟩ := Layout.settle_settles _ _ _ sized enough settled
    ⟨keeps, built, stable⟩,
   Body.encode_laidOut⟩

/-- A `goto` to the label right after it, lowered for writing. -/
def gotoNext : Array Lowered := #[.branch (.goto ⟨0⟩), .label ⟨0⟩]

theorem gotoNext_settles :
    (#[false, false] : Array Bool).size = gotoNext.size ∧
      (#[false, false] : Array Bool).toList.count false < 3 ∧
      Layout.settle gotoNext 3 #[false, false] =
        .ok (#[false, false], ⟨#[0, 3], (∅ : Std.HashMap Label Nat).insert ⟨0⟩ 3⟩) ∧
      Layout.build gotoNext #[false, false] = .ok ⟨#[0, 3], (∅ : Std.HashMap Label Nat).insert ⟨0⟩ 3⟩ ∧
      Layout.widenOnce gotoNext #[false, false] ⟨#[0, 3], (∅ : Std.HashMap Label Nat).insert ⟨0⟩ 3⟩ =
        .ok (#[false, false], false) := by
  have settled : Layout.settle gotoNext 3 #[false, false] =
      .ok (#[false, false], ⟨#[0, 3], (∅ : Std.HashMap Label Nat).insert ⟨0⟩ 3⟩) := by cbv
  obtain ⟨_, built, stable⟩ :=
    jump_layout_settles_and_is_written.1 gotoNext 3 _ _ rfl (by decide) settled
  exact ⟨rfl, by decide, settled, built, stable⟩

end ClassKit
