import ClassKit.Proofs.EntryListLinks

/-!
# Runs of calls on an entry list

A client edits a list through a sequence of calls (`EntryList.Edit`). Only the counting of fresh
labels can fail, at the last 32-bit label, and a run stops at the first call that fails. Every
run from the empty list keeps the list well-formed (`EntryList.Wellformed`): its links are
coherent, its labels lie below the next fresh label, and that label stays within the last one.
What a caller may rely on in the list a run ends with is collected in `EntryList.Dependable`.

The main statement is `edits_keep_entry_list_coherent`: a run either ends in a dependable list,
with the labels it handed out, or stops at a call that would count past the last label.
-/

namespace ClassKit

namespace EntryList

/-- The calls that edit a list, as a client makes them. -/
inductive Edit where
  | newLabel
  | pushBack (entry : Entry)
  | insertBefore (anchor : EntryId) (entry : Entry)
  | insertAfter (anchor : EntryId) (entry : Entry)
  | remove (id : EntryId)
  | replace (id : EntryId) (entry : Entry)
  | clear

namespace Edit

/-- The call on a list: the labels it hands out and the list after it. A refused call leaves the
list as it is; a call that would count past the last label fails. -/
def apply (list : EntryList) : Edit → Except String (List Label × EntryList)
  | newLabel => (fun handed => ([handed.1], handed.2)) <$> list.newLabel
  | pushBack entry => (fun pushed => ([], pushed.2)) <$> list.pushBack entry
  | insertBefore anchor entry =>
    (fun inserted => ([], (inserted.map Prod.snd).getD list)) <$> list.insertBefore anchor entry
  | insertAfter anchor entry =>
    (fun inserted => ([], (inserted.map Prod.snd).getD list)) <$> list.insertAfter anchor entry
  | remove id => .ok ([], ((list.remove id).map Prod.snd).getD list)
  | replace id entry => .ok ([], ((list.replace id entry).map Prod.snd).getD list)
  | clear => .ok ([], list.clear)

/-- The handle whose entry the call changes in place, if any. -/
def target? : Edit → Option EntryId
  | remove id | replace id _ => some id
  | _ => none

/-- The call would count past the last label: `newLabel` with the last label fresh, or adding,
next to a live anchor for the insertions, a label at or past both the last and the fresh label. -/
def CountsPastLast (list : EntryList) : Edit → Prop
  | newLabel => Label.last.index ≤ list.freshIndex
  | pushBack entry => list.PastLast entry
  | insertBefore anchor entry | insertAfter anchor entry =>
    list.get anchor ≠ none ∧ list.PastLast entry
  | remove _ | replace _ _ | clear => False

end Edit

/-- A sequence of calls, stopping at the first that fails: the labels handed out and the list
after them. -/
def run (list : EntryList) : List Edit → Except String (List Label × EntryList)
  | [] => .ok ([], list)
  | edit :: rest => do
    let first ← edit.apply list
    let later ← run first.2 rest
    pure (first.1 ++ later.1, later.2)

/-! ## One call -/

section Apply

variable {list list' : EntryList} {handed : List Label}

/-- `newLabel` as a call hands out the label it counts. -/
theorem Edit.apply_newLabel_eq_ok (applied : Edit.newLabel.apply list = .ok (handed, list')) :
    ∃ label, list.newLabel = .ok (label, list') ∧ handed = [label] := by
  obtain ⟨⟨label, labelled⟩, found, same⟩ := map_eq_ok.mp applied
  simp only [Prod.mk.injEq] at same
  obtain ⟨rfl, rfl⟩ := same
  exact ⟨label, found, rfl⟩

/-- `pushBack` as a call hands out no label. -/
theorem Edit.apply_pushBack_eq_ok {entry : Entry}
    (applied : (Edit.pushBack entry).apply list = .ok (handed, list')) :
    ∃ id, list.pushBack entry = .ok (id, list') ∧ handed = [] := by
  obtain ⟨⟨id, pushedList⟩, pushed, same⟩ := map_eq_ok.mp applied
  simp only [Prod.mk.injEq] at same
  obtain ⟨rfl, rfl⟩ := same
  exact ⟨id, pushed, rfl⟩

/-- What an insertion does to the list as a call: an insertion next to a live anchor, or
nothing. -/
theorem insertion_eq_ok {inserting : Except String (Option (EntryId × EntryList))}
    (applied : (fun inserted : Option (EntryId × EntryList) =>
      (([] : List Label), (inserted.map Prod.snd).getD list)) <$> inserting = .ok (handed, list')) :
    handed = [] ∧ (inserting = .ok none ∧ list' = list ∨
      ∃ id, inserting = .ok (some (id, list'))) := by
  obtain ⟨inserted, found, same⟩ := map_eq_ok.mp applied
  simp only [Prod.mk.injEq] at same
  obtain ⟨rfl, rfl⟩ := same
  refine ⟨rfl, ?_⟩
  cases inserted with
  | none => exact Or.inl ⟨found, rfl⟩
  | some result =>
    obtain ⟨id, insertedList⟩ := result
    exact Or.inr ⟨id, found⟩

/-- An insertion fails exactly when its anchor is live and placing the entry fails. -/
theorem mapM_live_eq_error {anchor : EntryId} {entry : Entry} {message : String}
    {place : EntrySlot → Except String (EntryId × EntryList)}
    (placing : ∀ slot, place slot = .error message ↔ list.PastLast entry ∧ message = Label.overflow) :
    (list.live anchor).mapM place = .error message ↔
      (list.get anchor ≠ none ∧ list.PastLast entry) ∧ message = Label.overflow := by
  rw [mapM_eq_error]
  constructor
  · rintro ⟨slot, isLive, failed⟩
    obtain ⟨past, rfl⟩ := (placing slot).mp failed
    refine ⟨⟨fun dead => ?_, past⟩, rfl⟩
    rw [← live_eq_none, isLive] at dead
    cases dead
  · rintro ⟨⟨notDead, past⟩, rfl⟩
    obtain ⟨slot, isLive⟩ := Option.ne_none_iff_exists'.mp (mt live_eq_none.mp notDead)
    exact ⟨slot, isLive, (placing slot).mpr ⟨past, rfl⟩⟩

/-- A call fails exactly when it would count past the last label, and then with the overflow. -/
theorem Edit.apply_eq_error {edit : Edit} {message : String} :
    edit.apply list = .error message ↔ edit.CountsPastLast list ∧ message = Label.overflow := by
  cases edit with
  | newLabel => rw [Edit.apply, map_eq_error, newLabel_eq_error, Edit.CountsPastLast]
  | pushBack entry =>
    rw [Edit.apply, map_eq_error, Edit.CountsPastLast]
    exact alloc_eq_error
  | insertBefore anchor entry =>
    rw [Edit.apply, map_eq_error, Edit.CountsPastLast, EntryList.insertBefore]
    exact mapM_live_eq_error fun _ => alloc_eq_error
  | insertAfter anchor entry =>
    rw [Edit.apply, map_eq_error, Edit.CountsPastLast, EntryList.insertAfter]
    exact mapM_live_eq_error fun _ => alloc_eq_error
  | remove id | replace id entry | clear => simp [Edit.apply, Edit.CountsPastLast]

/-- A call other than `clear` leaves every handle of the list that it does not target resolving
as before. -/
theorem Edit.get_apply (edit : Edit) (notClear : edit ≠ .clear) {id : EntryId}
    (inside : id.index < list.slots.size) (untouched : edit.target? ≠ some id)
    (applied : edit.apply list = .ok (handed, list')) : list'.get id = list.get id := by
  have allocated : ∀ {entry prev next added list'}, list.alloc entry prev next = .ok (added, list') →
      list'.get id = list.get id := fun allocated => by
    simp [get_of_alloc_eq_ok allocated, Nat.ne_of_lt inside]
  cases edit with
  | newLabel =>
    obtain ⟨label, found, -⟩ := Edit.apply_newLabel_eq_ok applied
    obtain ⟨-, -, rfl⟩ := newLabel_eq_ok.mp found
    rfl
  | pushBack entry =>
    obtain ⟨added, pushed, -⟩ := Edit.apply_pushBack_eq_ok applied
    exact allocated pushed
  | insertBefore anchor entry =>
    rcases (insertion_eq_ok applied).2 with ⟨-, rfl⟩ | ⟨added, inserted⟩
    · rfl
    · obtain ⟨slot, -, allocating⟩ := insertBefore_eq_ok_some.mp inserted
      exact allocated allocating
  | insertAfter anchor entry =>
    rcases (insertion_eq_ok applied).2 with ⟨-, rfl⟩ | ⟨added, inserted⟩
    · rfl
    · obtain ⟨slot, -, allocating⟩ := insertAfter_eq_ok_some.mp inserted
      exact allocated allocating
  | remove target =>
    have different : id.index ≠ target.index := fun same =>
      untouched (by cases id; cases target; simp_all [Edit.target?])
    cases applied
    cases removed : list.remove target with
    | none => rfl
    | some result =>
      obtain ⟨slot, -, -, -, unlinked⟩ := remove_eq_some.mp removed
      simp [unlinked, different]
  | replace target entry =>
    have different : id.index ≠ target.index := fun same =>
      untouched (by cases id; cases target; simp_all [Edit.target?])
    cases applied
    cases replaced : list.replace target entry with
    | none => rfl
    | some result => simp [get_of_replace_eq_some replaced, different]
  | clear => exact absurd rfl notClear

end Apply

/-! ## Well-formed lists -/

/-- What holds of every list reached by calls: its links are coherent with an order of its live
slots, its labels lie below the next fresh label, and that label is at most the last one. -/
structure Wellformed (list : EntryList) : Prop where
  coherent : ∃ order, Coherent list order
  placedBelow : list.PlacedBelow
  withinLast : list.freshIndex ≤ Label.last.index

theorem Wellformed.empty : Wellformed {} :=
  ⟨⟨[], Coherent.clear {}⟩, fun _ _ placed => by simp [get] at placed, Nat.zero_le _⟩

section Steps

variable {list list' : EntryList} {handed : List Label}

/-- An allocation that keeps the links coherent keeps the list well-formed and never lowers the
next fresh label. -/
theorem Wellformed.alloc (wellformed : Wellformed list) {entry : Entry} {prev next : Option Nat}
    {id : EntryId} (allocated : list.alloc entry prev next = .ok (id, list'))
    (coherent : ∃ order, Coherent list' order) :
    Wellformed list' ∧ list.freshIndex ≤ list'.freshIndex := by
  obtain ⟨grows, -, within⟩ := freshIndex_alloc allocated
  exact ⟨⟨coherent, wellformed.placedBelow.alloc allocated, within wellformed.withinLast⟩, grows⟩

/-- An insertion keeps the list well-formed and never lowers the next fresh label. -/
theorem Wellformed.insertion (wellformed : Wellformed list)
    {inserting : Except String (Option (EntryId × EntryList))}
    (applied : (fun inserted : Option (EntryId × EntryList) =>
      (([] : List Label), (inserted.map Prod.snd).getD list)) <$> inserting = .ok (handed, list'))
    (inserts : ∀ id, inserting = .ok (some (id, list')) → Wellformed list' ∧
      list.freshIndex ≤ list'.freshIndex) :
    handed = [] ∧ Wellformed list' ∧ list.freshIndex ≤ list'.freshIndex := by
  obtain ⟨rfl, refusedOrInserted⟩ := insertion_eq_ok applied
  rcases refusedOrInserted with ⟨-, rfl⟩ | ⟨id, inserted⟩
  · exact ⟨rfl, wellformed, le_rfl⟩
  · exact ⟨rfl, inserts id inserted⟩

/-- One successful call keeps a list well-formed, never lowers the next fresh label, and hands
out only labels below it. -/
theorem Wellformed.apply (wellformed : Wellformed list) {edit : Edit}
    (applied : edit.apply list = .ok (handed, list')) :
    Wellformed list' ∧ list.freshIndex ≤ list'.freshIndex ∧
      ∀ label ∈ handed, label.index < list'.freshIndex := by
  have ⟨⟨order, coherent⟩, placedBelow, withinLast⟩ := wellformed
  have nothingHanded : ∀ {bound : Nat}, ∀ label ∈ ([] : List Label), label.index < bound := by simp
  cases edit with
  | newLabel =>
    obtain ⟨label, found, rfl⟩ := Edit.apply_newLabel_eq_ok applied
    obtain ⟨isFresh, raised, within⟩ := freshIndex_of_newLabel_eq_ok found
    refine ⟨⟨⟨order, coherent.newLabel found⟩, placedBelow.newLabel found, within⟩, by omega, ?_⟩
    simp only [List.mem_singleton, forall_eq]
    omega
  | pushBack entry =>
    obtain ⟨id, pushed, rfl⟩ := Edit.apply_pushBack_eq_ok applied
    exact (wellformed.alloc pushed ⟨_, (coherent.pushBack pushed).2⟩).imp_right
      fun grows => ⟨grows, nothingHanded⟩
  | insertBefore anchor entry =>
    obtain ⟨rfl, stepped⟩ := wellformed.insertion applied fun id inserted => by
      obtain ⟨slot, -, allocated⟩ := insertBefore_eq_ok_some.mp inserted
      obtain ⟨front, back, -, -, placed⟩ := coherent.insertBefore inserted
      exact wellformed.alloc allocated ⟨_, placed⟩
    exact ⟨stepped.1, stepped.2, nothingHanded⟩
  | insertAfter anchor entry =>
    obtain ⟨rfl, stepped⟩ := wellformed.insertion applied fun id inserted => by
      obtain ⟨slot, -, allocated⟩ := insertAfter_eq_ok_some.mp inserted
      obtain ⟨front, back, -, -, placed⟩ := coherent.insertAfter inserted
      exact wellformed.alloc allocated ⟨_, placed⟩
    exact ⟨stepped.1, stepped.2, nothingHanded⟩
  | remove id =>
    cases applied
    cases removed : list.remove id with
    | none => exact ⟨by simpa using wellformed, by simp, nothingHanded⟩
    | some result =>
      obtain ⟨entry, unlinked⟩ := result
      obtain ⟨front, back, -, placed⟩ := coherent.remove removed
      obtain ⟨slot, -, -, -, rfl⟩ := remove_eq_some.mp removed
      exact ⟨⟨⟨_, by simpa using placed⟩,
        by simpa using placedBelow.unlink id.index slot,
        by simpa using withinLast⟩, by simp, nothingHanded⟩
  | replace id entry =>
    cases applied
    cases replaced : list.replace id entry with
    | none => exact ⟨by simpa using wellformed, by simp, nothingHanded⟩
    | some result =>
      obtain ⟨old, replacedList⟩ := result
      obtain ⟨below, same⟩ := placedBelow.replace replaced
      exact ⟨⟨⟨order, by simpa using coherent.replace replaced⟩,
        by simpa using below, by simpa [same] using withinLast⟩,
        by simp [same], nothingHanded⟩
  | clear =>
    cases applied
    exact ⟨⟨⟨[], Coherent.clear list⟩, fun _ _ placed => by simp [EntryList.clear, get] at placed,
      withinLast⟩, le_rfl, nothingHanded⟩

/-- A successful run from a well-formed list keeps it well-formed, and every label handed out
lies below the next fresh label. -/
theorem Wellformed.run (wellformed : Wellformed list) {edits : List Edit}
    (ran : list.run edits = .ok (handed, list')) :
    Wellformed list' ∧ list.freshIndex ≤ list'.freshIndex ∧
      ∀ label ∈ handed, label.index < list'.freshIndex := by
  induction edits generalizing list handed with
  | nil =>
    cases ran
    exact ⟨wellformed, le_rfl, by simp⟩
  | cons edit rest ih =>
    obtain ⟨first, applied, restRan⟩ := bind_eq_ok ran
    obtain ⟨later, ranLater, finished⟩ := bind_eq_ok restRan
    cases finished
    obtain ⟨stepped, grows, handedNow⟩ := wellformed.apply applied
    obtain ⟨ended, grew, handedLater⟩ := ih stepped ranLater
    refine ⟨ended, grows.trans grew, fun label handed => ?_⟩
    rcases List.mem_append.mp handed with now | afterwards
    · exact Nat.lt_of_lt_of_le (handedNow label now) grew
    · exact handedLater label afterwards

/-- A failed run fails at one call, after the calls before it succeeded. -/
theorem run_eq_error {edits : List Edit} {message : String} (ran : list.run edits = .error message) :
    ∃ front edit back, edits = front ++ edit :: back ∧ ∃ handed list',
      list.run front = .ok (handed, list') ∧ edit.apply list' = .error message := by
  induction edits generalizing list with
  | nil => cases ran
  | cons edit rest ih =>
    cases applied : edit.apply list with
    | error failure =>
      have same : failure = message := by simpa [run, applied, bind, Except.bind] using ran
      exact ⟨[], edit, rest, rfl, [], list, rfl, same ▸ applied⟩
    | ok first =>
      have restFailed : first.2.run rest = .error message := by
        cases restRan : first.2.run rest <;>
          simp_all [run, bind, Except.bind, pure, Except.pure]
      obtain ⟨front, failing, back, rfl, handed, stuck, frontRan, failed⟩ := ih restFailed
      refine ⟨edit :: front, failing, back, rfl, first.1 ++ handed, stuck, ?_, failed⟩
      simp [run, applied, frontRan, bind, Except.bind, pure, Except.pure]

end Steps

/-! ## What a caller may rely on -/

/-- What a caller may rely on in a list reached by calls, where `handed` are the labels handed
out so far: walking it shows its entries coherently; a handle keeps its entry through every call
but `clear` and the `remove` or `replace` of that handle; `remove` and `replace` leave the labels
in place and refuse exactly labels and emptied handles, the insertions exactly emptied anchors;
and a label that `newLabel` hands out is neither handed out already nor placed. -/
structure Dependable (list : EntryList) (handed : List Label) : Prop where
  iterates : list.Iterates
  keeps : ∀ edit : Edit, edit ≠ .clear → ∀ id : EntryId, id.index < list.slots.size →
    edit.target? ≠ some id → ∀ result, edit.apply list = .ok result → result.2.get id = list.get id
  removes : ∀ id entry list', list.remove id = some (entry, list') →
    list.get id = some entry ∧ list'.get id = none ∧ list'.placedLabels = list.placedLabels
  replaces : ∀ id entry old list', list.replace id entry = some (old, list') →
    list.get id = some old ∧ list'.get id = some entry ∧ list'.placedLabels = list.placedLabels
  refusesRemove : ∀ id, list.remove id = none ↔ ∀ entry, list.get id = some entry → entry.isLabel
  refusesReplace : ∀ id entry, list.replace id entry = none ↔
    entry.isLabel ∨ ∀ old, list.get id = some old → old.isLabel
  refusesInsertBefore : ∀ anchor entry,
    list.insertBefore anchor entry = .ok none ↔ list.get anchor = none
  refusesInsertAfter : ∀ anchor entry,
    list.insertAfter anchor entry = .ok none ↔ list.get anchor = none
  freshNotHanded : ∀ label list', list.newLabel = .ok (label, list') → label ∉ handed
  freshNotPlaced : ∀ label list', list.newLabel = .ok (label, list') →
    ∀ id, list.get id ≠ some (.label label)

theorem Wellformed.dependable {list : EntryList} {handed : List Label}
    (wellformed : Wellformed list)
    (handedBelow : ∀ label ∈ handed, label.index < list.freshIndex) :
    list.Dependable handed := by
  obtain ⟨⟨order, coherent⟩, placedBelow, -⟩ := wellformed
  refine ⟨coherent.iterates, fun edit notClear _ inside untouched result applied =>
      edit.get_apply notClear inside untouched applied,
    fun _ _ _ removed => coherent.remove_labels removed,
    fun _ _ _ _ replaced => coherent.replace_labels replaced,
    fun _ => remove_eq_none, fun _ _ => replace_eq_none, fun _ _ => insertBefore_eq_ok_none,
    fun _ _ => insertAfter_eq_ok_none, fun label _ handedOut handedAlready => ?_,
    fun label _ handedOut id placed => ?_⟩
  · have below := handedBelow _ handedAlready
    rw [(freshIndex_of_newLabel_eq_ok handedOut).1] at below
    exact Nat.lt_irrefl _ below
  · have below := placedBelow id _ placed
    rw [(freshIndex_of_newLabel_eq_ok handedOut).1] at below
    exact Nat.lt_irrefl _ below

/-- Every run of calls from the empty list, whatever the calls, ends in a dependable list with
the labels it handed out, or stops with the overflow at a call that would count past the last
label, every call before it having succeeded and left a dependable list. -/
theorem edits_keep_entry_list_coherent (edits : List Edit) :
    (∀ handed list, ({} : EntryList).run edits = .ok (handed, list) → list.Dependable handed) ∧
    ∀ message, ({} : EntryList).run edits = .error message →
      message = Label.overflow ∧ ∃ front edit back handed list, edits = front ++ edit :: back ∧
        ({} : EntryList).run front = .ok (handed, list) ∧ list.Dependable handed ∧
        edit.CountsPastLast list := by
  have dependable : ∀ {edits handed list}, ({} : EntryList).run edits = .ok (handed, list) →
      list.Dependable handed := fun ran => by
    obtain ⟨wellformed, -, handedBelow⟩ := Wellformed.empty.run ran
    exact wellformed.dependable handedBelow
  refine ⟨fun _ _ ran => dependable ran, fun message ran => ?_⟩
  obtain ⟨front, edit, back, rfl, handed, list, frontRan, failed⟩ := run_eq_error ran
  obtain ⟨counts, isOverflow⟩ := Edit.apply_eq_error.mp failed
  exact ⟨isOverflow, front, edit, back, handed, list, rfl, frontRan, dependable frontRan, counts⟩

/-- Two runs: one hands out `l0` and then, past a placed `l5`, `l6`; the other places the label
before the last and then asks for a fresh label, which would be past the last. -/
theorem edits_keep_entry_list_coherent_runs :
    (∃ handed list, ({} : EntryList).run [.newLabel, .pushBack (.label ⟨5⟩), .newLabel] =
        .ok (handed, list) ∧ list.Dependable handed) ∧
    ∃ message, ({} : EntryList).run [.pushBack (.label ⟨4294967294⟩), .newLabel] = .error message ∧
      message = Label.overflow :=
  ⟨⟨_, _, rfl, (edits_keep_entry_list_coherent [.newLabel, .pushBack (.label ⟨5⟩), .newLabel]).1 _ _ rfl⟩,
    _, rfl, ((edits_keep_entry_list_coherent [.pushBack (.label ⟨4294967294⟩), .newLabel]).2 _ rfl).1⟩

end EntryList

end ClassKit
