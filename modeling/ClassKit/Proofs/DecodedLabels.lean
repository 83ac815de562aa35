import ClassKit.Class.Decode
import ClassKit.Proofs.Outcome
import ClassKit.Proofs.Reading
import ClassKit.Proofs.Labels

/-!
# Decoded bodies are well-labelled

Reading a body places a label before every instruction that a branch or a handler refers to,
and one at the very end when a handler's range reaches it; the labels are numbered in
increasing offset. Every label a decoded body names is therefore placed, and no label is placed
twice: `Body.decode_wellLabelled`.

The argument follows the decoder. Instructions start at strictly increasing offsets
(`Decoded.readAll_offsets`); `Body.labelOffsets` marks only instruction starts and the end of
the code, and marks every offset it accepts; `numberLabels` numbers the marks in increasing
order, so distinct offsets get distinct labels.
-/

namespace ClassKit

/-! ## Folds -/

section Folds

variable {α β γ δ ε : Type}

theorem foldl_appends {step : Array β → α → Array β} (extra : α → List β)
    (appends : ∀ acc item, (step acc item).toList = acc.toList ++ extra item) :
    ∀ (items : List α) (init : Array β),
      (items.foldl step init).toList = init.toList ++ items.flatMap extra
  | [], init => by simp
  | item :: items, init => by
    rw [List.foldl_cons, foldl_appends extra appends items, appends, List.flatMap_cons,
      List.append_assoc]

/-- A successful fold whose steps only grow the accumulator (`keeps`), and each establish a
fact about their item that growth preserves, ends with every item's fact established. A step
may rely on its accumulator having grown from the initial one. -/
theorem foldlM_establishes {step : δ → γ → Except ε δ} (keeps : δ → δ → Prop)
    (keepsRefl : ∀ acc, keeps acc acc) (keepsTrans : ∀ a b c, keeps a b → keeps b c → keeps a c)
    (done : δ → γ → Prop) (stays : ∀ item a b, done a item → keeps a b → done b item)
    {items : List γ} {init : δ}
    (stepOk : ∀ acc item next, item ∈ items → keeps init acc → step acc item = .ok next →
      keeps acc next ∧ done next item) :
    ∀ {final : δ}, items.foldlM step init = .ok final →
      keeps init final ∧ ∀ item ∈ items, done final item := by
  induction items generalizing init with
  | nil =>
    intro final folded
    cases folded
    exact ⟨keepsRefl init, fun _ member => nomatch member⟩
  | cons item rest restEstablishes =>
    intro final folded
    rw [List.foldlM_cons] at folded
    cases stepped : step init item with
    | error err => rw [stepped] at folded; cases folded
    | ok next =>
      rw [stepped] at folded
      obtain ⟨grows, itemDone⟩ :=
        stepOk init item next List.mem_cons_self (keepsRefl init) stepped
      obtain ⟨growsAfter, restDone⟩ := restEstablishes
        (fun acc other after member reached => stepOk acc other after
          (List.mem_cons_of_mem item member) (keepsTrans _ _ _ grows reached))
        folded
      refine ⟨keepsTrans _ _ _ grows growsAfter, fun other member => ?_⟩
      rcases List.mem_cons.mp member with rfl | later
      · exact stays _ _ _ itemDone growsAfter
      · exact restDone other later

theorem mem_of_mapM_ok {f : α → Except ε β} :
    ∀ {items : List α} {values : List β}, items.mapM f = .ok values →
      ∀ value ∈ values, ∃ item ∈ items, f item = .ok value
  | [], values, traversed => by
    cases traversed
    exact fun _ member => nomatch member
  | item :: items, values, traversed => by
    rw [List.mapM_cons] at traversed
    obtain ⟨first, found, traversed⟩ := bind_eq_ok traversed
    obtain ⟨rest, restFound, traversed⟩ := bind_eq_ok traversed
    cases traversed
    intro value member
    rcases List.mem_cons.mp member with rfl | later
    · exact ⟨item, List.mem_cons_self, found⟩
    · obtain ⟨other, otherMember, otherFound⟩ := mem_of_mapM_ok restFound value later
      exact ⟨other, List.mem_cons_of_mem item otherMember, otherFound⟩

theorem map_eq_of_mapM_ok {view : β → δ} {spec : α → δ} {f : α → Except ε β}
    (agrees : ∀ item value, f item = .ok value → view value = spec item) :
    ∀ {items : List α} {values : List β}, items.mapM f = .ok values →
      values.map view = items.map spec
  | [], values, traversed => by
    cases traversed
    rfl
  | item :: items, values, traversed => by
    rw [List.mapM_cons] at traversed
    obtain ⟨first, found, traversed⟩ := bind_eq_ok traversed
    obtain ⟨rest, restFound, traversed⟩ := bind_eq_ok traversed
    cases traversed
    rw [List.map_cons, List.map_cons, agrees item first found, map_eq_of_mapM_ok agrees restFound]

end Folds

theorem Branch.targets_map {τ υ : Type} (f : τ → υ) (branch : Branch τ) :
    (branch.map f).targets = branch.targets.map f := by
  cases branch <;> simp [Branch.map, Branch.targets]

/-- The entry a decoded instruction becomes once its branch offsets are replaced by labels. -/
@[simp]
def Decoded.toEntry (labelAt : Int → Label) : Decoded → Entry
  | .instruction plain => .instruction plain
  | .branch jump => .branch (jump.map labelAt)

/-! ## Marks -/

/-- `later` has the size of `marks` and keeps each of its marks. -/
def KeepsMarks (marks later : Array Bool) : Prop :=
  later.size = marks.size ∧ ∀ index : Nat, marks[index]? = some true → later[index]? = some true

namespace KeepsMarks

theorem refl (marks : Array Bool) : KeepsMarks marks marks := ⟨rfl, fun _ => id⟩

theorem trans {first second third : Array Bool} (grows : KeepsMarks first second)
    (growsAgain : KeepsMarks second third) : KeepsMarks first third :=
  ⟨growsAgain.1.trans grows.1, fun index marked => growsAgain.2 index (grows.2 index marked)⟩

theorem set (marks : Array Bool) (index : Nat) : KeepsMarks marks (marks.set! index true) := by
  refine ⟨by simp, fun other marked => ?_⟩
  rw [Array.set!_eq_setIfInBounds, Array.getElem?_setIfInBounds]
  split
  · subst other
    rw [if_pos (Array.getElem?_eq_some_iff.mp marked).1]
  · exact marked

end KeepsMarks

theorem getElem?_set_true {marks : Array Bool} {index : Nat} (inside : index < marks.size) :
    (marks.set! index true)[index]? = some true := by
  rw [Array.set!_eq_setIfInBounds, Array.getElem?_setIfInBounds, if_pos rfl, if_pos inside]

/-- Setting marks at the offsets of instructions marks nothing else. -/
theorem marked_of_set (decoded : List (Nat × Decoded)) :
    ∀ {init : Array Bool} {index : Nat},
      (decoded.foldl (fun starts (pair : Nat × Decoded) => starts.set! pair.1 true) init)[index]? =
        some true → init[index]? = some true ∨ index ∈ decoded.map Prod.fst := by
  induction decoded with
  | nil => exact fun marked => .inl marked
  | cons first rest restMarked =>
    intro init index marked
    rcases restMarked marked with earlier | later
    · simp only [Array.set!_eq_setIfInBounds, Array.getElem?_setIfInBounds] at earlier
      split at earlier
      · exact .inr (by simp_all)
      · exact .inl earlier
    · exact .inr (List.mem_cons_of_mem _ later)

theorem marked_start {decoded : Array (Nat × Decoded)} {length index : Nat}
    (marked : (decoded.foldl (fun starts (pair : Nat × Decoded) => starts.set! pair.1 true)
      (Array.replicate length false))[index]? = some true) :
    index ∈ decoded.toList.map Prod.fst := by
  rw [← Array.foldl_toList] at marked
  rcases marked_of_set decoded.toList marked with initial | found
  · simp [Array.getElem?_replicate] at initial
  · exact found

namespace Body

/-- A place a label can stand: the start of an instruction or the end of the code, marked. -/
def Anchored (decoded : Array (Nat × Decoded)) (length : Nat) (marks : Array Bool)
    (target : Int) : Prop :=
  0 ≤ target ∧ target.toNat ∈ decoded.toList.map Prod.fst ++ [length] ∧
    marks[target.toNat]? = some true

theorem Anchored.stays {decoded : Array (Nat × Decoded)} {length : Nat} {marks later : Array Bool}
    {target : Int} (anchored : Anchored decoded length marks target)
    (grows : KeepsMarks marks later) : Anchored decoded length later target :=
  ⟨anchored.1, anchored.2.1, grows.2 _ anchored.2.2⟩

/-- Every target of the branch read at an offset, if it is a branch, is anchored. -/
def TargetsAnchored (decoded : Array (Nat × Decoded)) (length : Nat) (marks : Array Bool)
    (pair : Nat × Decoded) : Prop :=
  ∀ branch, pair.2 = .branch branch → ∀ target ∈ branch.targets, Anchored decoded length marks target

/-- The three offsets of a handler row are anchored. -/
def RowAnchored (decoded : Array (Nat × Decoded)) (length : Nat) (marks : Array Bool)
    (row : HandlerRow) : Prop :=
  ∀ offset ∈ [row.startPc, row.endPc, row.handlerPc], Anchored decoded length marks offset

theorem TargetsAnchored.stays {decoded : Array (Nat × Decoded)} {length : Nat}
    {marks later : Array Bool} {pair : Nat × Decoded}
    (anchored : TargetsAnchored decoded length marks pair) (grows : KeepsMarks marks later) :
    TargetsAnchored decoded length later pair :=
  fun branch isBranch target member => (anchored branch isBranch target member).stays grows

/-- Marking an instruction start or the end of the code anchors it. -/
theorem anchored_set {decoded : Array (Nat × Decoded)} {length : Nat} {marks : Array Bool}
    {offset : Nat} (below : ∀ offset ∈ decoded.toList.map Prod.fst, offset < length)
    (sized : marks.size = length + 1)
    (placed : offset ∈ decoded.toList.map Prod.fst ∨ offset = length) :
    Anchored decoded length (marks.set! offset true) offset := by
  have inside : offset < marks.size := by
    rcases placed with member | rfl
    · exact sized ▸ Nat.lt_succ_of_lt (below offset member)
    · exact sized ▸ Nat.lt_succ_self offset
  refine ⟨Int.natCast_nonneg offset, ?_, ?_⟩
  · rw [Int.toNat_natCast]
    rcases placed with member | rfl
    · exact List.mem_append_left _ member
    · exact List.mem_append_right _ (List.mem_singleton_self _)
  · rw [Int.toNat_natCast]
    exact getElem?_set_true inside

/-- Marking the three offsets of a handler row, the start and the handler at instruction starts
and the end at one or at the end of the code, anchors the row and keeps the other marks. -/
theorem rowAnchored_set {decoded : Array (Nat × Decoded)} {length : Nat} {marks : Array Bool}
    {row : HandlerRow} (below : ∀ offset ∈ decoded.toList.map Prod.fst, offset < length)
    (sized : marks.size = length + 1) (startMember : row.startPc ∈ decoded.toList.map Prod.fst)
    (endPlaced : row.endPc ∈ decoded.toList.map Prod.fst ∨ row.endPc = length)
    (handlerMember : row.handlerPc ∈ decoded.toList.map Prod.fst) :
    let marked := ((marks.set! row.startPc true).set! row.endPc true).set! row.handlerPc true
    KeepsMarks marks marked ∧ RowAnchored decoded length marked row := by
  intro marked
  have startSet := KeepsMarks.set marks row.startPc
  have endSet := KeepsMarks.set (marks.set! row.startPc true) row.endPc
  have handlerSet := KeepsMarks.set ((marks.set! row.startPc true).set! row.endPc true) row.handlerPc
  refine ⟨(startSet.trans endSet).trans handlerSet, fun offset member => ?_⟩
  simp only [List.mem_cons, List.not_mem_nil, or_false] at member
  rcases member with rfl | rfl | rfl
  · exact ((anchored_set below sized (.inl startMember)).stays endSet).stays handlerSet
  · exact (anchored_set below (startSet.1.trans sized) endPlaced).stays handlerSet
  · exact anchored_set below ((startSet.trans endSet).1.trans sized) (.inl handlerMember)

/-- What a successful `labelOffsets` guarantees: every branch target and every offset of a
handler row is anchored. -/
theorem labelOffsets_anchored {decoded : Array (Nat × Decoded)} {rows : List HandlerRow}
    {length : Nat} {marks : Array Bool}
    (below : ∀ offset ∈ decoded.toList.map Prod.fst, offset < length)
    (found : labelOffsets decoded rows length = .ok marks) :
    marks.size = length + 1 ∧ (∀ pair ∈ decoded.toList, TargetsAnchored decoded length marks pair) ∧
      ∀ row ∈ rows, RowAnchored decoded length marks row := by
  unfold labelOffsets at found
  extract_lets isStart startsAt at found
  -- `startsAt` accepts only instruction starts
  have started : ∀ target, startsAt target = true →
      0 ≤ target ∧ target.toNat ∈ decoded.toList.map Prod.fst := by
    intro target accepted
    simp only [startsAt, Bool.and_eq_true, decide_eq_true_eq] at accepted
    have marked : isStart[target.toNat]? = some true := by
      cases lookup : isStart[target.toNat]? <;> simp_all
    exact ⟨accepted.1, marked_start marked⟩
  obtain ⟨branchMarks, branchFold, rowFold⟩ := bind_eq_ok found
  rw [← Array.foldlM_toList] at branchFold
  -- the branch targets, each marked as it is accepted
  obtain ⟨branchGrows, branchesDone⟩ := foldlM_establishes KeepsMarks KeepsMarks.refl
    (fun _ _ _ => KeepsMarks.trans) (TargetsAnchored decoded length)
    (fun _ _ _ anchored grows => anchored.stays grows) (by
      rintro acc ⟨offset, entry⟩ next member reached stepped
      cases entry with
      | instruction _ =>
        cases stepped
        exact ⟨KeepsMarks.refl _, fun _ isBranch => nomatch isBranch⟩
      | branch branch =>
        obtain ⟨grows, targetsDone⟩ := foldlM_establishes KeepsMarks KeepsMarks.refl
          (fun _ _ _ => KeepsMarks.trans) (Anchored decoded length)
          (fun _ _ _ anchored grows => anchored.stays grows) (by
            intro inner target after _ innerReached innerStep
            split at innerStep
            · rename_i accepted
              cases innerStep
              obtain ⟨nonneg, member⟩ := started target accepted
              have anchored := anchored_set below
                ((innerReached.1.trans reached.1).trans (by simp)) (.inl member)
              rw [Int.toNat_of_nonneg nonneg] at anchored
              exact ⟨KeepsMarks.set _ _, anchored⟩
            · cases innerStep) stepped
        exact ⟨grows, fun other same target member => by cases same; exact targetsDone target member⟩)
    branchFold
  have branchSize : branchMarks.size = length + 1 := branchGrows.1.trans (by simp)
  -- the handler rows, whose three offsets are each checked, then marked
  obtain ⟨rowGrows, rowsDone⟩ := foldlM_establishes KeepsMarks KeepsMarks.refl
    (fun _ _ _ => KeepsMarks.trans) (RowAnchored decoded length)
    (fun _ _ _ anchored grows offset member => (anchored offset member).stays grows) (by
      intro acc row next _ reached stepped
      have sized : acc.size = length + 1 := reached.1.trans branchSize
      dsimp only at stepped
      split at stepped
      · cases stepped
      rename_i startChecked
      split at stepped
      · cases stepped
      rename_i endChecked
      split at stepped
      · cases stepped
      rename_i handlerChecked
      cases stepped
      simp at startChecked endChecked handlerChecked
      have startMember := (started _ startChecked.1).2
      have handlerMember := (started _ handlerChecked).2
      rw [Int.toNat_natCast] at startMember handlerMember
      have endPlaced : row.endPc ∈ decoded.toList.map Prod.fst ∨ row.endPc = length := by
        cases accepted : startsAt row.endPc
        · exact .inr (endChecked accepted)
        · exact .inl (by simpa using (started _ accepted).2)
      exact rowAnchored_set below sized startMember endPlaced handlerMember)
    rowFold
  exact ⟨rowGrows.1.trans branchSize, fun pair member => (branchesDone pair member).stays rowGrows,
    rowsDone⟩

/-! ## Numbering the marks -/

/-- What `numberLabels` has produced after `count` marks: one entry per mark, a label exactly
at the marked offsets, labels increasing with the offset, and all below `next`. -/
structure Numbered (marks : Array Bool) (count : Nat) (labels : Array (Option Label))
    (next : Nat) : Prop where
  size : labels.size = count
  labelled : ∀ index < count, (labels[index]?.join).isSome ↔ marks[index]? = some true
  increasing : ∀ (first second : Nat) (a b : Label), first < second →
    labels[first]?.join = some a → labels[second]?.join = some b → a.index < b.index
  below : ∀ (index : Nat) (a : Label), labels[index]?.join = some a → a.index < next

/-- One more mark keeps the numbering. -/
theorem Numbered.push {marks : Array Bool} {count : Nat} {labels : Array (Option Label)}
    {next : Nat} (numbered : Numbered marks count labels next) (inside : count < marks.size) :
    Numbered marks (count + 1)
      (if marks[count] then labels.push (some ⟨next⟩) else labels.push none)
      (if marks[count] then next + 1 else next) := by
  have atCount : marks[count]? = some marks[count] := Array.getElem?_eq_getElem inside
  cases marked : marks[count]
  all_goals simp only [Bool.false_eq_true, ↓reduceIte]
  · refine ⟨by simp [numbered.size], fun index within => ?_, fun first second a b before => ?_,
      fun index a => ?_⟩
    · rw [Array.getElem?_push]
      split
      · subst index
        simp [numbered.size, atCount, marked]
      · exact numbered.labelled index (by have := numbered.size; omega)
    · rw [Array.getElem?_push, Array.getElem?_push]
      split <;> split <;> simp_all
      exact numbered.increasing first second a b before
    · rw [Array.getElem?_push]
      split <;> simp_all
      exact numbered.below index a
  · refine ⟨by simp [numbered.size], fun index within => ?_, fun first second a b before => ?_,
      fun index a => ?_⟩
    · rw [Array.getElem?_push]
      split
      · subst index
        simp [numbered.size, atCount, marked]
      · exact numbered.labelled index (by have := numbered.size; omega)
    · intro firstLabelled secondLabelled
      rw [Array.getElem?_push] at firstLabelled secondLabelled
      -- the earlier of two labelled offsets was labelled before this mark
      have firstOld : first < labels.size := by
        refine Nat.lt_of_not_le fun outside => ?_
        rw [if_neg (by omega), Array.getElem?_eq_none (by omega)] at secondLabelled
        cases secondLabelled
      rw [if_neg (Nat.ne_of_lt firstOld)] at firstLabelled
      split at secondLabelled
      · cases secondLabelled
        exact numbered.below first a firstLabelled
      · exact numbered.increasing first second a b before firstLabelled secondLabelled
    · rw [Array.getElem?_push]
      split
      · intro labelled
        cases labelled
        exact Nat.lt_succ_self next
      · exact fun labelled => Nat.lt_succ_of_lt (numbered.below index a labelled)

/-- `numberLabels` gives a label exactly to the marked offsets, increasing with the offset. -/
theorem numberLabels_numbered (marks : Array Bool) :
    ∃ next, Numbered marks marks.size (numberLabels marks) next := by
  unfold numberLabels
  refine ⟨_, Array.foldl_induction
    (fun count (acc : Array (Option Label) × Nat) => Numbered marks count acc.1 acc.2)
    ⟨rfl, fun _ within => absurd within (Nat.not_lt_zero _), fun _ _ _ _ _ labelled => by
      simp at labelled, fun _ _ labelled => by simp at labelled⟩ ?_⟩
  intro index ⟨labels, next⟩ numbered
  have pushed := numbered.push index.2
  simp only [Fin.getElem_fin]
  split at pushed
  · rename_i marked
    simp only [marked, ↓reduceIte]
    exact pushed
  · rename_i unmarked
    simp only [unmarked, Bool.false_eq_true, ↓reduceIte]
    exact pushed

/-! ## The shape of a decoded body -/


/-- The body `Body.decode` builds: the instructions read, in order, each preceded by the label
numbered at its offset if that offset is marked, then the label of the end of the code; branches
and handlers name the labels of their offsets. -/
theorem decode_layout {pool : ConstantPool} {code : CodeAttribute} {body : Body}
    (decoded : decode pool code = .ok body) :
    ∃ (instructions : Array (Nat × Decoded)) (marks : Array Bool),
      (∃ rest, (Decoded.readAll pool code.code.length code.code.length #[]).run code.code =
        .ok (instructions, rest)) ∧
      labelOffsets instructions code.handlers code.code.length = .ok marks ∧
      body.entries.toList = instructions.toList.flatMap (fun pair =>
          ((numberLabels marks)[pair.1]?.join).toList.map Entry.label ++
            [pair.2.toEntry fun target => ((numberLabels marks)[target.toNat]?.join).getD default]) ++
        ((numberLabels marks)[code.code.length]?.join).toList.map Entry.label ∧
      body.handlers.map Handler.labels = code.handlers.map fun row =>
        [row.startPc, row.endPc, row.handlerPc].map fun offset =>
          ((numberLabels marks)[offset]?.join).getD default := by
  unfold decode at decoded
  extract_lets length at decoded
  obtain ⟨⟨instructions, rest⟩, read, decoded⟩ := bind_eq_ok decoded
  obtain ⟨marks, marked, decoded⟩ := bind_eq_ok decoded
  extract_lets labels labelAt placed entries entries' at decoded
  obtain ⟨handlers, mapped, decoded⟩ := bind_eq_ok decoded
  cases decoded
  have placedList : ∀ offset (acc : Array Entry),
      (placed offset acc).toList = acc.toList ++ (labels[offset]?.join).toList.map Entry.label := by
    intro offset acc
    simp only [placed]
    split
    · rename_i label found
      simp only [found, Array.toList_push, Option.toList_some, List.map_cons, List.map_nil]
    · rename_i unlabelled
      simp only [unlabelled, Option.toList_none, List.map_nil, List.append_nil]
  have entriesList : entries.toList = instructions.toList.flatMap fun pair =>
      (labels[pair.1]?.join).toList.map Entry.label ++ [pair.2.toEntry labelAt] := by
    simp only [entries]
    rw [← Array.foldl_toList]
    refine (foldl_appends _ ?_ _ _).trans (List.nil_append _)
    rintro acc ⟨offset, entry⟩
    cases entry <;> simp [placedList]
  refine ⟨instructions, marks, ⟨rest, read⟩, marked, ?_, ?_⟩
  · show (placed length entries).toList = _
    rw [placedList, entriesList]
  · -- each handler names the labels of its row's offsets, whatever its catch type
    refine map_eq_of_mapM_ok (fun row handler built => ?_) mapped
    dsimp only at built
    split at built
    · cases built
      rfl
    · obtain ⟨catchType, _, built⟩ := bind_eq_ok built
      cases built
      rfl

/-- How `Body.decode` lays a body out: the instructions read and the offsets marked, the
labels placed (at each marked instruction start, then at the end of the code), the labels the
branches name, and the labels of the handlers. -/
theorem decode_shape {pool : ConstantPool} {code : CodeAttribute} {body : Body}
    (decoded : decode pool code = .ok body) :
    ∃ (instructions : Array (Nat × Decoded)) (marks : Array Bool),
      (∃ rest, (Decoded.readAll pool code.code.length code.code.length #[]).run code.code =
        .ok (instructions, rest)) ∧
      labelOffsets instructions code.handlers code.code.length = .ok marks ∧
      body.labelDefs = (instructions.toList.map Prod.fst ++ [code.code.length]).filterMap
        (fun offset => (numberLabels marks)[offset]?.join) ∧
      (∀ entry ∈ body.entries.toList, ∀ label ∈ entry.references,
        ∃ pair ∈ instructions.toList, ∃ branch, pair.2 = .branch branch ∧
          ∃ target ∈ branch.targets, label = ((numberLabels marks)[target.toNat]?.join).getD default) ∧
      (∀ handler ∈ body.handlers, ∃ row ∈ code.handlers,
        handler.labels = [row.startPc, row.endPc, row.handlerPc].map
          fun offset => ((numberLabels marks)[offset]?.join).getD default) := by
  obtain ⟨instructions, marks, read, marked, entriesList, handlersList⟩ := decode_layout decoded
  refine ⟨instructions, marks, read, marked, ?_, ?_, ?_⟩
  · -- the labels placed: one per marked instruction start, then one at the end
    simp only [labelDefs, entriesList, List.filterMap_eq_flatMap_toList, List.flatMap_append,
      List.flatMap_map, List.flatMap_assoc]
    congr 1
    · refine List.flatMap_congr fun pair _ => ?_
      obtain ⟨offset, entry⟩ := pair
      cases entry <;> simp [Entry.defines]
    · simp [Entry.defines]
  · -- a branch names the labels of its targets' offsets
    intro entry member label referenced
    simp only [entriesList, List.mem_append, List.mem_flatMap, List.mem_map,
      List.mem_singleton] at member
    rcases member with ⟨⟨offset, read⟩, pairMember, placedHere | rfl⟩ | ⟨_, _, rfl⟩
    · obtain ⟨_, _, rfl⟩ := placedHere
      simp [Entry.references] at referenced
    · cases read with
      | instruction _ => simp [Entry.references] at referenced
      | branch branch =>
        simp only [Decoded.toEntry, Entry.references, Branch.targets_map, List.mem_map] at referenced
        obtain ⟨target, targetMember, rfl⟩ := referenced
        exact ⟨(offset, .branch branch), pairMember, branch, rfl, target, targetMember, rfl⟩
    · simp [Entry.references] at referenced
  · -- each handler names the labels of its row's offsets
    intro handler member
    have named : handler.labels ∈ body.handlers.map Handler.labels := List.mem_map_of_mem member
    rw [handlersList] at named
    obtain ⟨row, rowMember, same⟩ := List.mem_map.mp named
    exact ⟨row, rowMember, same.symm⟩

/-! ## Decoded bodies are well-labelled -/

/-- Every body read from bytecode places each of its labels once, and places every label its
branches and handlers name. -/
theorem decode_wellLabelled {pool : ConstantPool} {code : CodeAttribute} {body : Body}
    (decoded : decode pool code = .ok body) : body.WellLabelled := by
  obtain ⟨instructions, marks, ⟨rest, read⟩, marked, defs, refs, handled⟩ := decode_shape decoded
  obtain ⟨cursor, ran, -⟩ := ByteReader.run_ok read
  obtain ⟨increasing, below⟩ := Decoded.readAll_offsets pool _ _ #[] instructions _ cursor
    (by simp) (by simp) ran
  obtain ⟨-, targetsAnchored, rowsAnchored⟩ := labelOffsets_anchored below marked
  obtain ⟨next, numbered⟩ := numberLabels_numbered marks
  -- the label of an anchored offset is placed
  have placedAt : ∀ target : Int, Anchored instructions code.code.length marks target →
      ((numberLabels marks)[target.toNat]?.join).getD default ∈ body.labelDefs := by
    rintro target ⟨-, member, mark⟩
    have within : target.toNat < marks.size := (Array.getElem?_eq_some_iff.mp mark).1
    obtain ⟨label, found⟩ := Option.isSome_iff_exists.mp ((numbered.labelled _ within).mpr mark)
    rw [found, Option.getD_some, defs]
    exact List.mem_filterMap.mpr ⟨_, member, found⟩
  refine ⟨?_, fun label referenced => ?_⟩
  · -- labels are placed at increasing offsets, and increase with them
    have offsetsIncrease :
        (instructions.toList.map Prod.fst ++ [code.code.length]).Pairwise (· < ·) := by
      rw [List.pairwise_append]
      refine ⟨increasing, List.pairwise_singleton _ _, fun offset member last isLast => ?_⟩
      rw [List.mem_singleton.mp isLast]
      exact below offset member
    rw [defs, List.Nodup]
    exact (offsetsIncrease.filterMap _ fun first second before a found b found' =>
      numbered.increasing first second a b before found found').imp
        fun {a b : Label} (lower : a.index < b.index) (same : a = b) =>
          Nat.lt_irrefl a.index (by rw [same] at lower ⊢; exact lower)
  · simp only [labelRefs, List.mem_append, List.mem_flatMap] at referenced
    rcases referenced with ⟨entry, member, isReference⟩ | ⟨handler, member, named⟩
    · obtain ⟨pair, pairMember, branch, isBranch, target, targetMember, rfl⟩ :=
        refs entry member label isReference
      exact placedAt target (targetsAnchored pair pairMember branch isBranch target targetMember)
    · obtain ⟨row, rowMember, same⟩ := handled handler member
      rw [same] at named
      obtain ⟨offset, offsetMember, rfl⟩ := List.mem_map.mp named
      simpa using placedAt offset (rowsAnchored row rowMember offset offsetMember)

end Body

/-! ## Decoded classes -/

end ClassKit
