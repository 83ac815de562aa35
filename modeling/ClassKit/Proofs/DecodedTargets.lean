import ClassKit.Proofs.DecodedLabels
import ClassKit.Proofs.EncodeFailure
import ClassKit.Proofs.PoolBuilding
import Mathlib

/-!
# Reading a body accepts exactly the bodies whose offsets are instruction starts

A `Code` attribute refers to offsets in its bytecode: branches jump to targets, and each row of
the exception table names the start and the end of a range and the start of its handler. Reading
the body turns each of these offsets into a label, and can only do so where an instruction
starts (the end of a range may also be the end of the code).

Main statement: once the instructions are read and the catch types resolve, `Body.decode` fails
exactly when an offset breaks that rule (`TargetsValid`), and then with `badBranchTarget`;
otherwise the body lists the instructions in order with one label before each offset that is
referred to (`Body.LabelledLayout`), so it is well-labelled, its flow graph is built and writing it
never stumbles on a label.

The argument has three parts. `labelOffsets` succeeds exactly on valid offsets, since each of its
checks looks at one offset and marking never fails (`labelOffsets_exists_ok_iff`); it marks
exactly the offsets referred to (`labelOffsets_marked_iff`); and `Body.decode` lays the body out
from those marks (`decode_layout`).
-/

namespace ClassKit

/-! ## Folds that may fail -/

section Folds

variable {γ δ ε : Type}

/-- A fold whose steps succeed exactly on the good items, whatever the accumulator, succeeds
exactly when every item is good. -/
theorem foldlM_exists_ok_iff {step : δ → γ → Except ε δ} (good : γ → Prop)
    (stepOk : ∀ acc item, (∃ next, step acc item = .ok next) ↔ good item) (items : List γ)
    (init : δ) :
    (∃ final, items.foldlM step init = .ok final) ↔ ∀ item ∈ items, good item := by
  constructor
  · rintro ⟨final, folded⟩
    exact (foldlM_establishes (fun _ _ => True) (fun _ => trivial) (fun _ _ _ _ _ => trivial)
      (fun _ item => good item) (fun _ _ _ holds _ => holds)
      (fun acc item next _ _ stepped => ⟨trivial, (stepOk acc item).mp ⟨next, stepped⟩⟩) folded).2
  · intro allGood
    exact foldlM_ok (fun acc item member => (stepOk acc item).mpr (allGood item member)) init

/-- A property of the accumulator that every step keeps holds at the end of a fold. -/
theorem foldlM_preserves {step : δ → γ → Except ε δ} (holds : δ → Prop) {items : List γ}
    {init final : δ} (keeps : ∀ acc item next, item ∈ items → holds acc → step acc item = .ok next →
      holds next)
    (initially : holds init) (folded : items.foldlM step init = .ok final) : holds final :=
  (foldlM_establishes (fun before after => holds before → holds after) (fun _ => id)
    (fun _ _ _ first second => second ∘ first) (fun _ _ => True) (fun _ _ _ _ _ => trivial)
    (fun acc item next member _ stepped => ⟨fun before => keeps acc item next member before stepped,
      trivial⟩) folded).1 initially

/-- Every error of a fold is the error of one of its steps. -/
theorem foldlM_error_of_step {step : δ → γ → Except ε δ} :
    ∀ {items : List γ} {init : δ} {err : ε}, items.foldlM step init = .error err →
      ∃ acc, ∃ item ∈ items, step acc item = .error err
  | [], _, _, folded => by cases folded
  | item :: items, init, err, folded => by
    rw [List.foldlM_cons] at folded
    cases stepped : step init item with
    | error first =>
      rw [stepped] at folded
      cases folded
      exact ⟨init, item, List.mem_cons_self, stepped⟩
    | ok next =>
      rw [stepped] at folded
      obtain ⟨acc, other, member, failed⟩ := foldlM_error_of_step folded
      exact ⟨acc, other, List.mem_cons_of_mem item member, failed⟩

theorem exists_bind_eq_ok_iff {α β : Type} {first : Except ε α} {rest : α → Except ε β}
    {firstOk restOk : Prop} (firstIff : (∃ value, first = .ok value) ↔ firstOk)
    (restIff : ∀ value, (∃ result, rest value = .ok result) ↔ restOk) :
    (∃ result, (first >>= rest) = .ok result) ↔ firstOk ∧ restOk := by
  constructor
  · rintro ⟨result, ran⟩
    obtain ⟨value, found, ran⟩ := bind_eq_ok ran
    exact ⟨firstIff.mp ⟨value, found⟩, (restIff value).mp ⟨result, ran⟩⟩
  · rintro ⟨firstHolds, restHolds⟩
    obtain ⟨value, found⟩ := firstIff.mpr firstHolds
    obtain ⟨result, ran⟩ := (restIff value).mpr restHolds
    exact ⟨result, by rw [found]; exact ran⟩

theorem bind_eq_error {α β : Type} {first : Except ε α} {rest : α → Except ε β} {err : ε}
    (ran : (first >>= rest) = .error err) :
    first = .error err ∨ ∃ value, first = .ok value ∧ rest value = .error err := by
  cases first with
  | error first => cases ran; exact .inl rfl
  | ok value => exact .inr ⟨value, rfl, ran⟩

end Folds

/-! ## Instruction starts -/

/-- Marking the offsets of a list of pairs marks, besides what was marked before, exactly those
offsets that lie within the array. -/
theorem marked_foldl_set_iff (decoded : List (Nat × Decoded)) :
    ∀ (init : Array Bool) (index : Nat),
      (decoded.foldl (fun starts (pair : Nat × Decoded) => starts.set! pair.1 true) init)[index]? =
        some true ↔ init[index]? = some true ∨ (index ∈ decoded.map Prod.fst ∧ index < init.size) := by
  induction decoded with
  | nil => simp
  | cons first rest restMarked =>
    intro init index
    rw [List.foldl_cons, restMarked, Array.set!_eq_setIfInBounds, Array.size_setIfInBounds,
      Array.getElem?_setIfInBounds, List.map_cons, List.mem_cons]
    by_cases same : first.1 = index
    · subst same
      by_cases inside : first.1 < init.size <;> simp [inside]
    · simp only [same, ↓reduceIte, Ne.symm same, false_or]

/-- The array of instruction starts marks exactly the offsets of the instructions read. -/
theorem marked_starts_iff {decoded : Array (Nat × Decoded)} {length index : Nat}
    (below : ∀ offset ∈ decoded.toList.map Prod.fst, offset < length) :
    (decoded.foldl (fun starts (pair : Nat × Decoded) => starts.set! pair.1 true)
      (Array.replicate length false))[index]? = some true ↔ index ∈ decoded.toList.map Prod.fst := by
  rw [← Array.foldl_toList, marked_foldl_set_iff]
  simp only [Array.getElem?_replicate, Array.size_replicate]
  constructor
  · rintro (initial | ⟨member, -⟩)
    · split at initial <;> simp at initial
    · exact member
  · exact fun member => .inr ⟨member, below index member⟩

namespace Decoded

/-- The offsets an instruction read from bytecode jumps to: a branch's targets, none otherwise. -/
@[simp]
def targets : Decoded → List Int
  | instruction _ => []
  | branch jump => jump.targets

end Decoded

namespace Body

/-- What reading a body asks of the offsets it refers to: every branch target is an instruction
start, and every handler row covers a nonempty range that starts at an instruction and ends at
one or at the end of the code, with its handler at an instruction start. -/
structure TargetsValid (decoded : Array (Nat × Decoded)) (rows : List HandlerRow) (length : Nat) :
    Prop where
  targets : ∀ pair ∈ decoded.toList, ∀ target ∈ pair.2.targets,
    0 ≤ target ∧ target.toNat ∈ decoded.toList.map Prod.fst
  start : ∀ row ∈ rows, row.startPc ∈ decoded.toList.map Prod.fst
  nonempty : ∀ row ∈ rows, row.startPc < row.endPc
  stop : ∀ row ∈ rows, row.endPc ∈ decoded.toList.map Prod.fst ∨ row.endPc = length
  handler : ∀ row ∈ rows, row.handlerPc ∈ decoded.toList.map Prod.fst

theorem targetsValid_iff {decoded : Array (Nat × Decoded)} {rows : List HandlerRow} {length : Nat} :
    TargetsValid decoded rows length ↔
      (∀ pair ∈ decoded.toList, ∀ target ∈ pair.2.targets,
        0 ≤ target ∧ target.toNat ∈ decoded.toList.map Prod.fst) ∧
      ∀ row ∈ rows, (row.startPc ∈ decoded.toList.map Prod.fst ∧ row.startPc < row.endPc) ∧
        (row.endPc ∈ decoded.toList.map Prod.fst ∨ row.endPc = length) ∧
        row.handlerPc ∈ decoded.toList.map Prod.fst := by
  constructor
  · intro valid
    exact ⟨valid.targets, fun row member => ⟨⟨valid.start row member, valid.nonempty row member⟩,
      valid.stop row member, valid.handler row member⟩⟩
  · rintro ⟨targets, checked⟩
    exact ⟨targets, fun row member => (checked row member).1.1,
      fun row member => (checked row member).1.2, fun row member => (checked row member).2.1,
      fun row member => (checked row member).2.2⟩

instance (decoded : Array (Nat × Decoded)) (rows : List HandlerRow) (length : Nat) :
    Decidable (TargetsValid decoded rows length) :=
  decidable_of_iff _ targetsValid_iff.symm

/-- The offsets a body read from bytecode refers to: the targets of its branches and the start,
end and handler of each row of its exception table. -/
def Referenced (decoded : Array (Nat × Decoded)) (rows : List HandlerRow) (offset : Nat) : Prop :=
  (∃ pair ∈ decoded.toList, (offset : Int) ∈ pair.2.targets) ∨
    ∃ row ∈ rows, offset ∈ [row.startPc, row.endPc, row.handlerPc]

instance (decoded : Array (Nat × Decoded)) (rows : List HandlerRow) :
    DecidablePred (Referenced decoded rows) :=
  fun _ => inferInstanceAs (Decidable (_ ∨ _))

/-! ## The offsets `labelOffsets` accepts -/

/-- `labelOffsets` succeeds exactly when the offsets are valid: each of its checks looks at one
offset, and marking an offset never fails. -/
theorem labelOffsets_exists_ok_iff {decoded : Array (Nat × Decoded)} {rows : List HandlerRow}
    {length : Nat} (below : ∀ offset ∈ decoded.toList.map Prod.fst, offset < length) :
    (∃ marks, labelOffsets decoded rows length = .ok marks) ↔ TargetsValid decoded rows length := by
  unfold labelOffsets
  extract_lets isStart startsAt
  have accepts : ∀ target, startsAt target = true ↔
      0 ≤ target ∧ target.toNat ∈ decoded.toList.map Prod.fst := by
    intro target
    rw [← marked_starts_iff below]
    simp [startsAt, isStart, Option.getD_eq_iff]
  rw [← Array.foldlM_toList]
  refine (exists_bind_eq_ok_iff (foldlM_exists_ok_iff
      (fun pair : Nat × Decoded => ∀ target ∈ pair.2.targets, startsAt target = true) ?_ _ _)
    fun marks => foldlM_exists_ok_iff (fun row : HandlerRow =>
      (startsAt row.startPc = true ∧ row.startPc < row.endPc) ∧
        (startsAt row.endPc = true ∨ row.endPc = length) ∧ startsAt row.handlerPc = true) ?_ _ _).trans ?_
  · -- a branch's targets are marked one by one, each only if it is an instruction start
    rintro acc ⟨_, entry⟩
    cases entry with
    | instruction _ => simp
    | branch branch =>
      refine foldlM_exists_ok_iff (fun target => startsAt target = true) (fun marks target => ?_) _ _
      by_cases accepted : startsAt target = true <;> simp [accepted]
  · -- a row is checked at its three offsets, then marked
    intro acc row
    dsimp only
    constructor
    · rintro ⟨next, stepped⟩
      split at stepped
      · cases stepped
      rename_i startChecked
      split at stepped
      · cases stepped
      rename_i endChecked
      split at stepped
      · cases stepped
      rename_i handlerChecked
      simp at startChecked endChecked handlerChecked
      refine ⟨startChecked, ?_, handlerChecked⟩
      cases accepted : startsAt row.endPc
      · exact .inr (endChecked accepted)
      · exact .inl rfl
    · rintro ⟨⟨startOk, ordered⟩, endOk, handlerOk⟩
      have startPasses : (!startsAt row.startPc || decide (row.startPc ≥ row.endPc)) = false := by
        simp [startOk, ordered]
      have endPasses : (!(startsAt row.endPc || row.endPc == length)) = false := by
        rcases endOk with accepted | atEnd
        · simp [accepted]
        · simp [atEnd]
      have handlerPasses : (!startsAt row.handlerPc) = false := by
        simp [handlerOk]
      simp only [startPasses, endPasses, handlerPasses, Bool.false_eq_true, ↓reduceIte]
      exact ⟨_, rfl⟩
  · -- the checks are those of validity, read through the instruction starts
    simp only [accepts, Int.toNat_natCast, Int.natCast_nonneg, true_and]
    exact targetsValid_iff.symm

/-- `labelOffsets` fails only on an offset it cannot place, with `badBranchTarget`. -/
theorem labelOffsets_error {decoded : Array (Nat × Decoded)} {rows : List HandlerRow} {length : Nat}
    {err : ClassError} (failed : labelOffsets decoded rows length = .error err) :
    ∃ offset target, err = .badBranchTarget offset target := by
  unfold labelOffsets at failed
  extract_lets isStart startsAt at failed
  rw [← Array.foldlM_toList] at failed
  rcases bind_eq_error failed with branchFailed | ⟨marks, -, rowFailed⟩
  · -- a branch target that is not an instruction start
    obtain ⟨acc, ⟨offset, entry⟩, -, stepFailed⟩ := foldlM_error_of_step branchFailed
    cases entry with
    | instruction _ => cases stepFailed
    | branch branch =>
      obtain ⟨inner, target, -, targetFailed⟩ := foldlM_error_of_step stepFailed
      split at targetFailed
      · cases targetFailed
      · cases targetFailed
        exact ⟨offset, target, rfl⟩
  · -- a row whose start, end or handler is misplaced
    obtain ⟨acc, row, -, stepFailed⟩ := foldlM_error_of_step rowFailed
    dsimp only at stepFailed
    split at stepFailed
    · cases stepFailed
      exact ⟨_, _, rfl⟩
    split at stepFailed
    · cases stepFailed
      exact ⟨_, _, rfl⟩
    split at stepFailed
    · cases stepFailed
      exact ⟨_, _, rfl⟩
    · cases stepFailed

/-! ## The offsets `labelOffsets` marks -/

/-- Every mark stands at an offset that is referred to. -/
def MarksReferenced (decoded : Array (Nat × Decoded)) (rows : List HandlerRow)
    (marks : Array Bool) : Prop :=
  ∀ offset, marks[offset]? = some true → Referenced decoded rows offset

theorem MarksReferenced.set {decoded : Array (Nat × Decoded)} {rows : List HandlerRow}
    {marks : Array Bool} {index : Nat} (marked : MarksReferenced decoded rows marks)
    (referenced : Referenced decoded rows index) :
    MarksReferenced decoded rows (marks.set! index true) := by
  intro offset isMarked
  rw [Array.set!_eq_setIfInBounds, Array.getElem?_setIfInBounds] at isMarked
  split at isMarked
  · rename_i same
    exact same ▸ referenced
  · exact marked offset isMarked

/-- `labelOffsets` marks only offsets that are referred to. -/
theorem labelOffsets_marksReferenced {decoded : Array (Nat × Decoded)} {rows : List HandlerRow}
    {length : Nat} {marks : Array Bool} (found : labelOffsets decoded rows length = .ok marks) :
    MarksReferenced decoded rows marks := by
  unfold labelOffsets at found
  extract_lets isStart startsAt at found
  obtain ⟨branchMarks, branchFold, rowFold⟩ := bind_eq_ok found
  rw [← Array.foldlM_toList] at branchFold
  have unmarked : MarksReferenced decoded rows (Array.replicate (length + 1) false) := by
    intro offset marked
    simp [Array.getElem?_replicate] at marked
  refine foldlM_preserves (MarksReferenced decoded rows) (fun acc row next member before stepped => ?_)
    (foldlM_preserves (MarksReferenced decoded rows) (fun acc pair next member before stepped => ?_)
      unmarked branchFold) rowFold
  · -- a row marks its three offsets
    dsimp only at stepped
    split at stepped
    · cases stepped
    split at stepped
    · cases stepped
    split at stepped
    · cases stepped
    cases stepped
    have boundary : ∀ offset ∈ [row.startPc, row.endPc, row.handlerPc],
        Referenced decoded rows offset := fun offset isBoundary => .inr ⟨row, member, isBoundary⟩
    exact ((before.set (boundary _ (by simp))).set (boundary _ (by simp))).set (boundary _ (by simp))
  · -- a branch marks its targets, each an instruction start and so not negative
    obtain ⟨offset, entry⟩ := pair
    cases entry with
    | instruction _ =>
      cases stepped
      exact before
    | branch branch =>
      refine foldlM_preserves (MarksReferenced decoded rows)
        (fun inner target after isTarget innerBefore innerStep => ?_) before stepped
      split at innerStep
      · rename_i accepted
        cases innerStep
        have nonneg : 0 ≤ target := by
          simp only [startsAt, Bool.and_eq_true, decide_eq_true_eq] at accepted
          exact accepted.1
        refine innerBefore.set (.inl ⟨(offset, .branch branch), member, ?_⟩)
        rw [Int.toNat_of_nonneg nonneg]
        exact isTarget
      · cases innerStep

/-- `labelOffsets` marks exactly the offsets that are referred to. -/
theorem labelOffsets_marked_iff {decoded : Array (Nat × Decoded)} {rows : List HandlerRow}
    {length : Nat} {marks : Array Bool}
    (below : ∀ offset ∈ decoded.toList.map Prod.fst, offset < length)
    (found : labelOffsets decoded rows length = .ok marks) (offset : Nat) :
    marks[offset]? = some true ↔ Referenced decoded rows offset := by
  refine ⟨labelOffsets_marksReferenced found offset, ?_⟩
  obtain ⟨-, targetsAnchored, rowsAnchored⟩ := labelOffsets_anchored below found
  rintro (⟨⟨position, entry⟩, member, isTarget⟩ | ⟨row, member, boundary⟩)
  · cases entry with
    | instruction _ => simp at isTarget
    | branch branch =>
      simpa using (targetsAnchored _ member branch rfl _ isTarget).2.2
  · simpa using (rowsAnchored row member offset boundary).2.2

/-! ## Reading a body -/

/-- A body laid out from the instructions read from bytecode, with `labels` the label put at
each offset: each offset referred to, and only such an offset, has a label, which stands right
before the instruction at that offset (or at the end of the code); no two offsets share a label;
and branches and handlers name the labels of their offsets. -/
structure LabelledLayout (instructions : Array (Nat × Decoded)) (rows : List HandlerRow) (length : Nat)
    (labels : Nat → Option Label) (body : Body) : Prop where
  labelled : ∀ offset, (labels offset).isSome ↔ Referenced instructions rows offset
  distinct : ∀ first second label, labels first = some label → labels second = some label →
    first = second
  entries : body.entries.toList = instructions.toList.flatMap (fun pair =>
      (labels pair.1).toList.map Entry.label ++
        [pair.2.toEntry fun target => (labels target.toNat).getD default]) ++
    (labels length).toList.map Entry.label
  handlers : body.handlers.map Handler.labels = rows.map fun row =>
    [row.startPc, row.endPc, row.handlerPc].map fun offset => (labels offset).getD default

section Decoding

variable {pool : ConstantPool} {code : CodeAttribute} {instructions : Array (Nat × Decoded)}
  {rest : List UInt8}

/-- Once its instructions are read, a body fails to decode as `labelOffsets` fails. -/
theorem decode_eq_error_of_labelOffsets
    (read : (Decoded.readAll pool code.code.length code.code.length #[]).run code.code =
      .ok (instructions, rest))
    {err : ClassError} (failed : labelOffsets instructions code.handlers code.code.length = .error err) :
    decode pool code = .error err := by
  unfold decode
  simp only [read, ok_bind, failed]
  rfl

/-- Once its instructions are read and its catch types resolve, a body decodes whenever
`labelOffsets` succeeds. -/
theorem decode_exists_ok_of_labelOffsets
    (read : (Decoded.readAll pool code.code.length code.code.length #[]).run code.code =
      .ok (instructions, rest))
    (resolves : ∀ row ∈ code.handlers, row.catchIndex ≠ 0 →
      ∃ name, pool.binaryName row.catchIndex = .ok name)
    {marks : Array Bool} (found : labelOffsets instructions code.handlers code.code.length = .ok marks) :
    ∃ body, decode pool code = .ok body := by
  unfold decode
  simp only [read, ok_bind, found]
  -- only the catch types are left to look up
  refine (exists_bind_eq_ok_iff Iff.rfl fun handlers => iff_of_true ⟨_, rfl⟩ trivial).mpr
    ⟨mapM_ok fun row member => ?_, trivial⟩
  split
  · exact ⟨_, rfl⟩
  · rename_i tagged
    obtain ⟨name, resolved⟩ := resolves row member (by simpa using tagged)
    exact ⟨_, by rw [resolved]; rfl⟩

/-- A body read from bytecode is laid out with the labels `numberLabels` gives the offsets
`labelOffsets` marks. -/
theorem decode_labelledLayout {body : Body}
    (read : (Decoded.readAll pool code.code.length code.code.length #[]).run code.code =
      .ok (instructions, rest))
    (decoded : decode pool code = .ok body) :
    ∃ labels, LabelledLayout instructions code.handlers code.code.length labels body := by
  obtain ⟨instructions', marks, ⟨rest', read'⟩, found, entries, handlers⟩ := decode_layout decoded
  rw [read] at read'
  cases read'
  obtain ⟨cursor, ran, -⟩ := ByteReader.run_ok read
  obtain ⟨-, below⟩ := Decoded.readAll_offsets pool _ _ #[] instructions _ cursor (by simp) (by simp) ran
  obtain ⟨next, numbered⟩ := numberLabels_numbered marks
  refine ⟨fun offset => (numberLabels marks)[offset]?.join,
    ⟨fun offset => ?_, fun first second label => ?_, entries, handlers⟩⟩
  · -- a label exactly at the marks, which are the offsets referred to
    rw [← labelOffsets_marked_iff below found offset]
    by_cases inside : offset < marks.size
    · exact numbered.labelled offset inside
    · have outside : marks.size ≤ offset := Nat.le_of_not_lt inside
      have unnumbered : (numberLabels marks).size ≤ offset := by
        rw [numbered.size]
        exact outside
      simp [Array.getElem?_eq_none unnumbered, Array.getElem?_eq_none outside]
  · -- labels increase with their offsets
    intro firstLabelled secondLabelled
    rcases Nat.lt_trichotomy first second with before | same | after
    · exact absurd (numbered.increasing first second label label before firstLabelled secondLabelled)
        (Nat.lt_irrefl _)
    · exact same
    · exact absurd (numbered.increasing second first label label after secondLabelled firstLabelled)
        (Nat.lt_irrefl _)

/-- Reading a body whose instructions decode and whose catch types resolve fails exactly when
one of its offsets cannot take a label, and then with `badBranchTarget`. Otherwise the body lists
its instructions in order of offset with one label before each offset referred to, and names
those labels in its branches and handlers; it is well-labelled, so its flow graph is built and
writing it never fails on a label. -/
theorem decode_labels_exactly_the_referenced_offsets
    (read : (Decoded.readAll pool code.code.length code.code.length #[]).run code.code =
      .ok (instructions, rest))
    (resolves : ∀ row ∈ code.handlers, row.catchIndex ≠ 0 →
      ∃ name, pool.binaryName row.catchIndex = .ok name) :
    ((∃ offset target, decode pool code = .error (.badBranchTarget offset target)) ↔
      ¬ TargetsValid instructions code.handlers code.code.length) ∧
    ((∃ body, decode pool code = .ok body) ↔ TargetsValid instructions code.handlers code.code.length) ∧
    ∀ body, decode pool code = .ok body →
      (instructions.toList.map Prod.fst).Pairwise (· < ·) ∧
      (∃ labels, LabelledLayout instructions code.handlers code.code.length labels body) ∧
      body.WellLabelled ∧ (∃ graph, FlowGraph.ofBody body = .ok graph) ∧
      ∀ parameterSlots, StateMeets (fun err => ∀ label,
          err ≠ .unplacedLabel label ∧ err ≠ .duplicateLabel label) (fun _ => True)
        (body.encode parameterSlots) := by
  obtain ⟨cursor, ran, -⟩ := ByteReader.run_ok read
  obtain ⟨increasing, below⟩ :=
    Decoded.readAll_offsets pool _ _ #[] instructions _ cursor (by simp) (by simp) ran
  -- decoding succeeds exactly when `labelOffsets` does
  have succeeds : (∃ body, decode pool code = .ok body) ↔
      TargetsValid instructions code.handlers code.code.length := by
    rw [← labelOffsets_exists_ok_iff below]
    constructor
    · rintro ⟨body, decoded⟩
      obtain ⟨_, marks, ⟨_, read'⟩, found, -⟩ := decode_layout decoded
      rw [read] at read'
      cases read'
      exact ⟨marks, found⟩
    · rintro ⟨marks, found⟩
      exact decode_exists_ok_of_labelOffsets read resolves found
  refine ⟨⟨?_, ?_⟩, succeeds, fun body decoded => ?_⟩
  · rintro ⟨offset, target, failed⟩ valid
    obtain ⟨body, decoded⟩ := succeeds.mpr valid
    rw [decoded] at failed
    cases failed
  · intro invalid
    cases found : labelOffsets instructions code.handlers code.code.length with
    | ok marks => exact absurd ((labelOffsets_exists_ok_iff below).mp ⟨marks, found⟩) invalid
    | error err =>
      obtain ⟨offset, target, rfl⟩ := labelOffsets_error found
      exact ⟨offset, target, decode_eq_error_of_labelOffsets read found⟩
  · have labelled := decode_wellLabelled decoded
    obtain ⟨graph, built, -⟩ := FlowGraph.ofBody_ok labelled
    refine ⟨increasing, decode_labelledLayout read decoded, labelled, ⟨graph, built⟩, fun parameterSlots => ?_⟩
    refine (encode_meets_of_wellLabelled labelled).mono (fun err refused label => ?_)
      fun _ holds => holds
    rcases refused with atCapacity | ⟨depth, rfl⟩ | ⟨count, rfl⟩
    · constructor <;> (rintro rfl; exact atCapacity)
    · simp
    · simp

/-- A body of a `nop`, a `goto` back to it and a `return`, with one exception-table row that
covers the whole code and is handled at the `return`. -/
def loopBackCode : CodeAttribute := ⟨1, 1, [0x00, 0xa7, 0xff, 0xff, 0xb1], [⟨0, 5, 4, 0⟩], []⟩

/-- The instructions of `loopBackCode`, at their offsets. -/
def loopBackInstructions : Array (Nat × Decoded) :=
  #[(0, .instruction .nop), (1, .branch (.goto 0)), (4, .branch .returnVoid)]

example : TargetsValid loopBackInstructions loopBackCode.handlers loopBackCode.code.length := by
  decide

set_option maxRecDepth 8000 in
theorem loopBack_decodes_exactly :
    (Decoded.readAll ⟨#[]⟩ loopBackCode.code.length loopBackCode.code.length #[]).run
        loopBackCode.code = .ok (loopBackInstructions, []) ∧
    (∀ row ∈ loopBackCode.handlers, row.catchIndex ≠ 0 →
      ∃ name, (⟨#[]⟩ : ConstantPool).binaryName row.catchIndex = .ok name) ∧
    ((∃ offset target, decode ⟨#[]⟩ loopBackCode = .error (.badBranchTarget offset target)) ↔
      ¬ TargetsValid loopBackInstructions loopBackCode.handlers loopBackCode.code.length) ∧
    ((∃ body, decode ⟨#[]⟩ loopBackCode = .ok body) ↔
      TargetsValid loopBackInstructions loopBackCode.handlers loopBackCode.code.length) ∧
    ∀ body, decode ⟨#[]⟩ loopBackCode = .ok body →
      (loopBackInstructions.toList.map Prod.fst).Pairwise (· < ·) ∧
      (∃ labels, LabelledLayout loopBackInstructions loopBackCode.handlers loopBackCode.code.length
        labels body) ∧
      body.WellLabelled ∧ (∃ graph, FlowGraph.ofBody body = .ok graph) ∧
      ∀ parameterSlots, StateMeets (fun err => ∀ label,
          err ≠ .unplacedLabel label ∧ err ≠ .duplicateLabel label) (fun _ => True)
        (body.encode parameterSlots) := by
  have read : (Decoded.readAll ⟨#[]⟩ loopBackCode.code.length loopBackCode.code.length #[]).run
      loopBackCode.code = .ok (loopBackInstructions, []) := by rfl
  have resolves : ∀ row ∈ loopBackCode.handlers, row.catchIndex ≠ 0 →
      ∃ name, (⟨#[]⟩ : ConstantPool).binaryName row.catchIndex = .ok name := by
    intro row member tagged
    simp only [loopBackCode, List.mem_singleton] at member
    subst member
    exact absurd rfl tagged
  exact ⟨read, resolves, decode_labels_exactly_the_referenced_offsets read resolves⟩

end Decoding

end Body

end ClassKit
