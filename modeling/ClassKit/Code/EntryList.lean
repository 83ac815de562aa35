import ClassKit.Code.Instruction

/-!
# Editable entry lists

A method body being edited is a doubly linked list of entries kept in an arena: every entry ever
added occupies a slot, and its handle is the index of that slot. Handles stay valid while other
entries come and go; once its own entry is removed a handle resolves to nothing, and the slot is
never reused until the whole list is cleared.

Labels can be added but neither removed nor replaced, because branches and handlers may still
refer to them. The list also hands out fresh labels: the next fresh label is always past every
label handed out or inserted so far, and clearing the list does not reset it. Fresh labels are
counted with `Label.next`, so handing out a label, or adding one, that would move the fresh label
past the last label fails before the list changes.
-/

namespace ClassKit

/-- A handle of an entry of an `EntryList`: the index of its slot. -/
structure EntryId where
  index : Nat
  deriving DecidableEq, Repr

/-- One arena slot: the entry (none once removed) and the slots of its neighbours. -/
structure EntrySlot where
  entry : Option Entry
  prev : Option Nat
  next : Option Nat

/-- An editable list of entries. `first` and `last` are the ends of the list; `size` counts the
live entries. -/
structure EntryList where
  slots : Array EntrySlot := #[]
  first : Option Nat := none
  last : Option Nat := none
  size : Nat := 0
  nextLabel : Option Label := none

namespace EntryList

/-- Whether no entry is live. -/
def isEmpty (list : EntryList) : Bool := list.size == 0

/-- The entry of a handle, if it is live. -/
def get (list : EntryList) (id : EntryId) : Option Entry :=
  (list.slots[id.index]?).bind (·.entry)

/-- The slot of a live handle. -/
def live (list : EntryList) (id : EntryId) : Option EntrySlot :=
  (list.slots[id.index]?).filter (·.entry.isSome)

/-- A fresh label, and the list that will not hand it out again. -/
def newLabel (list : EntryList) : Except String (Label × EntryList) := do
  let label := list.nextLabel.getD ⟨0⟩
  let following ← label.next
  pure (label, { list with nextLabel := some following })

def firstId (list : EntryList) : Option EntryId := list.first.map EntryId.mk

def lastId (list : EntryList) : Option EntryId := list.last.map EntryId.mk

/-- The handle after a live handle. -/
def next (list : EntryList) (id : EntryId) : Option EntryId :=
  (list.live id).bind fun slot => slot.next.map EntryId.mk

/-- The handle before a live handle. -/
def prev (list : EntryList) (id : EntryId) : Option EntryId :=
  (list.live id).bind fun slot => slot.prev.map EntryId.mk

/-- Follows `step` from `id` until an entry that is not a label; `fuel` bounds the walk by the
number of slots. -/
def skipLabels (list : EntryList) (step : EntryId → Option EntryId) : Nat → EntryId → Option EntryId
  | 0, _ => none
  | fuel + 1, id =>
    match step id with
    | none => none
    | some other =>
      match list.get other with
      | some (.label _) => skipLabels list step fuel other
      | _ => some other

/-- The next entry after a live handle that is not a label. -/
def nextInstruction (list : EntryList) (id : EntryId) : Option EntryId :=
  list.skipLabels list.next list.slots.size id

/-- The previous entry before a live handle that is not a label. -/
def prevInstruction (list : EntryList) (id : EntryId) : Option EntryId :=
  list.skipLabels list.prev list.slots.size id

/-- Points the neighbour on one side at a slot, or makes the slot an end of the list. -/
def linkAfter (list : EntryList) (prev : Option Nat) (index : Option Nat) : EntryList :=
  match prev with
  | some p => { list with slots := list.slots.modify p fun slot => { slot with next := index } }
  | none => { list with first := index }

def linkBefore (list : EntryList) (next : Option Nat) (index : Option Nat) : EntryList :=
  match next with
  | some n => { list with slots := list.slots.modify n fun slot => { slot with prev := index } }
  | none => { list with last := index }

/-- The fresh label once `entry` is added: a label at or past the fresh label moves it past
itself. -/
def nextLabelAfter (list : EntryList) : Entry → Except String (Option Label)
  | .label label =>
    match list.nextLabel with
    | some fresh => if fresh ≤ label then some <$> label.next else pure (some fresh)
    | none => some <$> label.next
  | _ => pure list.nextLabel

/-- Puts an entry in a new slot between two neighbours, with `nextLabel` as the fresh label. -/
def link (list : EntryList) (entry : Entry) (prev next : Option Nat) (nextLabel : Option Label) :
    EntryId × EntryList :=
  let index := list.slots.size
  let list := { list with slots := list.slots.push ⟨some entry, prev, next⟩, nextLabel,
                          size := list.size + 1 }
  let list := (list.linkAfter prev (some index)).linkBefore next (some index)
  (⟨index⟩, list)

/-- Adds an entry in a new slot between two neighbours; a label keeps fresh labels past it. -/
def alloc (list : EntryList) (entry : Entry) (prev next : Option Nat) :
    Except String (EntryId × EntryList) :=
  list.link entry prev next <$> list.nextLabelAfter entry

/-- Appends an entry. -/
def pushBack (list : EntryList) (entry : Entry) : Except String (EntryId × EntryList) :=
  list.alloc entry list.last none

/-- Inserts an entry right before a live handle; nothing when the handle is not live. -/
def insertBefore (list : EntryList) (anchor : EntryId) (entry : Entry) :
    Except String (Option (EntryId × EntryList)) :=
  (list.live anchor).mapM fun slot => list.alloc entry slot.prev (some anchor.index)

/-- Inserts an entry right after a live handle; nothing when the handle is not live. -/
def insertAfter (list : EntryList) (anchor : EntryId) (entry : Entry) :
    Except String (Option (EntryId × EntryList)) :=
  (list.live anchor).mapM fun slot => list.alloc entry (some anchor.index) slot.next

/-- Empties the slot at `index`, which held `slot`, and links its two neighbours to each other. -/
def unlink (list : EntryList) (index : Nat) (slot : EntrySlot) : EntryList :=
  let list := { list with slots := list.slots.set! index ⟨none, none, none⟩, size := list.size - 1 }
  (list.linkAfter slot.prev slot.next).linkBefore slot.next slot.prev

/-- Unlinks a live entry that is not a label, giving it back. -/
def remove (list : EntryList) (id : EntryId) : Option (Entry × EntryList) := do
  let slot ← list.slots[id.index]?
  let entry ← slot.entry
  if entry.isLabel then none
  else some (entry, list.unlink id.index slot)

/-- Swaps a live entry that is not a label for another entry that is not a label, giving back
the old one. -/
def replace (list : EntryList) (id : EntryId) (entry : Entry) : Option (Entry × EntryList) := do
  if entry.isLabel then none
  else
    let slot ← list.slots[id.index]?
    let old ← slot.entry
    if old.isLabel then none
    else some (old, { list with slots := list.slots.set! id.index { slot with entry := some entry } })

/-- Removes every entry, labels included; the fresh labels go on where they were. -/
def clear (list : EntryList) : EntryList := { nextLabel := list.nextLabel }

/-- The entry of a handle, or the failure of indexing with a handle that is not live. -/
def index (list : EntryList) (id : EntryId) : Except String Entry :=
  match list.get id with
  | some entry => .ok entry
  | none => .error s!"instruction InsnId({id.index}) was removed"

/-- The live entries in order from `start`, walking at most `fuel` slots. -/
def walk (list : EntryList) : Nat → Option Nat → List (EntryId × Entry)
  | 0, _ => []
  | _, none => []
  | fuel + 1, some index =>
    match list.slots[index]? with
    | some { entry := some entry, next, .. } => (⟨index⟩, entry) :: list.walk fuel next
    | _ => []

/-- The live entries with their handles, in list order. -/
def items (list : EntryList) : List (EntryId × Entry) := list.walk list.slots.size list.first

/-- A list holding the entries in order, with handles `0, 1, …`. -/
def ofEntries (entries : List Entry) : Except String EntryList :=
  entries.foldlM (fun list entry => Prod.snd <$> list.pushBack entry) {}

end EntryList

end ClassKit
