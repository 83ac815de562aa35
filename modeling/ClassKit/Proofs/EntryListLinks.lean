import ClassKit.Code.EntryList
import ClassKit.Error
import Mathlib.Data.Finset.Card
import Mathlib.Data.List.Chain

/-!
# Editable entry lists stay linked

An entry list keeps its entries in arena slots that link to their neighbours in both directions.
Each editing call keeps the links coherent with one order of the live slots
(`EntryList.Coherent`): every live slot appears once, `first` and `last` are its ends, each slot
links to its neighbours in that order, and `size` counts it. From there:

* walking the list shows each live entry once, as many as `size` counts, in the order of the
  links (`EntryList.Iterates`);
* each call changes the walk as the matching edit of a list of entries would: `remove` erases the
  entry at its position, `replace` sets it, the insertions insert next to the anchor and
  `pushBack` appends, and a list built from entries walks as those entries, each handle the
  position of its entry (`EntryList.items_ofEntries`);
* `remove` and `replace` keep the labels of the list in order, and refuse labels, label
  replacements and removed handles without changing anything, as the insertions refuse removed
  anchors;
* every placed label lies below the next fresh label (`EntryList.PlacedBelow`), which only grows;
  a call that would count it past the last label fails before changing anything.

`EntryListRuns` puts these together over any sequence of calls.
-/

namespace ClassKit

/-! ## The element after another -/

section Successor

/-- The element right after the first occurrence of `index` in a list, if there is one. -/
def successorIn : List Nat → Nat → Option Nat
  | [], _ => none
  | first :: rest, index => if first = index then rest.head? else successorIn rest index

/-- In a list without repetitions, the last element of a prefix is followed by the first
element of the rest. -/
theorem successorIn_append_of_getLast? {front back : List Nat} {index : Nat}
    (distinct : (front ++ back).Nodup) (isLast : front.getLast? = some index) :
    successorIn (front ++ back) index = back.head? := by
  induction front with
  | nil => simp at isLast
  | cons first rest ih =>
    cases rest with
    | nil =>
      simp only [List.getLast?_singleton, Option.some.injEq] at isLast
      simp [successorIn, isLast]
    | cons second more =>
      have lastOfRest : (second :: more).getLast? = some index := by
        rwa [List.getLast?_cons_cons] at isLast
      have notFirst : first ≠ index := by
        rintro rfl
        have inRest : first ∈ (second :: more) ++ back :=
          List.mem_append_left back (List.mem_of_getLast? lastOfRest)
        exact (List.nodup_cons.mp distinct).1 inRest
      rw [List.cons_append, successorIn, if_neg notFirst]
      exact ih (List.nodup_cons.mp distinct).2 lastOfRest

/-- Putting `inserted` between a prefix and the rest changes the successor only of the
prefix's last element. -/
theorem successorIn_insert {front back : List Nat} {inserted index : Nat}
    (distinct : (front ++ inserted :: back).Nodup) (member : index ∈ front ++ back)
    (notLast : front.getLast? ≠ some index) :
    successorIn (front ++ inserted :: back) index = successorIn (front ++ back) index := by
  induction front with
  | nil =>
    have different : inserted ≠ index := by
      rintro rfl
      exact (List.nodup_cons.mp distinct).1 (by simpa using member)
    simp [successorIn, different]
  | cons first rest ih =>
    by_cases atFirst : first = index
    · -- the successor of the first element is the head of the rest, which must be non-empty
      cases rest with
      | nil => simp [atFirst] at notLast
      | cons second more => simp [successorIn, atFirst]
    · simp only [List.cons_append, successorIn, if_neg atFirst]
      refine ih (List.nodup_cons.mp distinct).2 ?_ ?_
      · simpa [Ne.symm atFirst] using member
      · cases rest with
        | nil => simp
        | cons second more => rwa [List.getLast?_cons_cons] at notLast

/-- The successor of any element of `front ++ inserted :: back`: the inserted element is followed
by the rest, the last element of the prefix by the inserted one, and every other element as in
`front ++ back`. -/
theorem successorIn_insert_eq {front back : List Nat} {inserted index : Nat}
    (distinct : (front ++ inserted :: back).Nodup) (member : index ∈ front ++ inserted :: back) :
    successorIn (front ++ inserted :: back) index =
      if index = inserted then back.head?
      else if front.getLast? = some index then some inserted
      else successorIn (front ++ back) index := by
  have regrouped : front ++ inserted :: back = (front ++ [inserted]) ++ back := by simp
  split
  · next isInserted =>
    rw [regrouped, isInserted]
    exact successorIn_append_of_getLast? (regrouped ▸ distinct) (by simp)
  · next notInserted =>
    split
    · next isLast => exact successorIn_append_of_getLast? distinct isLast
    · next notLast =>
      refine successorIn_insert distinct ?_ notLast
      simpa [notInserted] using member

/-- The same, read backwards: the predecessor of any element of `front ++ inserted :: back`. -/
theorem successorIn_reverse_insert_eq {front back : List Nat} {inserted index : Nat}
    (distinct : (front ++ inserted :: back).Nodup) (member : index ∈ front ++ inserted :: back) :
    successorIn (front ++ inserted :: back).reverse index =
      if index = inserted then front.getLast?
      else if back.head? = some index then some inserted
      else successorIn (front ++ back).reverse index := by
  have reversed : (front ++ inserted :: back).reverse = back.reverse ++ inserted :: front.reverse := by
    simp
  have member' : index ∈ back.reverse ++ inserted :: front.reverse := by
    simp only [List.mem_append, List.mem_cons, List.mem_reverse] at member ⊢
    tauto
  rw [reversed, successorIn_insert_eq (reversed ▸ List.nodup_reverse.mpr distinct) member']
  simp [List.getLast?_reverse, List.head?_reverse]

/-- Consecutive elements of a list without repetitions are each other's successor and
predecessor. -/
theorem isChain_successorIn (front back : List Nat) (distinct : (front ++ back).Nodup) :
    back.IsChain fun index following => successorIn (front ++ back) index = some following ∧
      successorIn (front ++ back).reverse following = some index := by
  induction back generalizing front with
  | nil => exact List.IsChain.nil
  | cons first rest ih =>
    cases rest with
    | nil => exact List.IsChain.singleton first
    | cons second more =>
      have regrouped : front ++ first :: second :: more = (front ++ [first]) ++ second :: more := by
        simp
      have member : first ∈ front ++ first :: second :: more := by simp
      have member' : second ∈ (front ++ [first]) ++ second :: more := by simp
      refine List.IsChain.cons_cons ⟨?_, ?_⟩ (regrouped ▸ ih (front ++ [first]) (regrouped ▸ distinct))
      · rw [successorIn_insert_eq distinct member, if_pos rfl]
        rfl
      · rw [regrouped, successorIn_reverse_insert_eq (regrouped ▸ distinct) member', if_pos rfl]
        simp

/-- Only members have successors, and successors are members. -/
theorem mem_of_successorIn_eq_some {order : List Nat} {index following : Nat}
    (found : successorIn order index = some following) : index ∈ order ∧ following ∈ order := by
  induction order with
  | nil => simp [successorIn] at found
  | cons first rest ih =>
    simp only [successorIn] at found
    split at found
    · next atFirst =>
      subst atFirst
      exact ⟨List.mem_cons_self, List.mem_cons_of_mem _ (List.mem_of_mem_head? found)⟩
    · obtain ⟨inRest, followingInRest⟩ := ih found
      exact ⟨List.mem_cons_of_mem _ inRest, List.mem_cons_of_mem _ followingInRest⟩

/-- The last element of a list without repetitions has no successor. -/
theorem successorIn_getLast? {order : List Nat} {index : Nat} (distinct : order.Nodup)
    (isLast : order.getLast? = some index) : successorIn order index = none := by
  have atEnd : successorIn (order ++ []) index = ([] : List Nat).head? :=
    successorIn_append_of_getLast? (by simpa using distinct) isLast
  simpa using atEnd

end Successor

/-! ## Counting labels -/

namespace Label

theorem le_iff {a b : Label} : a ≤ b ↔ a.index ≤ b.index := Iff.rfl

theorem next_eq_ok {label following : Label} :
    label.next = .ok following ↔ label.index < last.index ∧ following = ⟨label.index + 1⟩ := by
  unfold next
  split
  · next below => simp [below, eq_comm]
  · next atLast => simp [atLast]

theorem next_eq_error {label : Label} {message : String} :
    label.next = .error message ↔ last.index ≤ label.index ∧ message = overflow := by
  unfold next
  split
  · next below =>
    simp only [reduceCtorEq, false_iff, not_and]
    intro atLast
    omega
  · next atLast =>
    simp only [Except.error.injEq]
    constructor
    · intro same
      exact ⟨by omega, same.symm⟩
    · rintro ⟨-, rfl⟩
      rfl

end Label

/-! ## Slots after a change -/

namespace EntryList

section Slots

variable (list : EntryList)

@[simp] theorem slots_size_linkAfter (prev target : Option Nat) :
    (list.linkAfter prev target).slots.size = list.slots.size := by
  cases prev <;> simp [linkAfter]

@[simp] theorem slots_size_linkBefore (next target : Option Nat) :
    (list.linkBefore next target).slots.size = list.slots.size := by
  cases next <;> simp [linkBefore]

@[simp] theorem nextLabel_linkAfter (prev target : Option Nat) :
    (list.linkAfter prev target).nextLabel = list.nextLabel := by
  cases prev <;> rfl

@[simp] theorem nextLabel_linkBefore (next target : Option Nat) :
    (list.linkBefore next target).nextLabel = list.nextLabel := by
  cases next <;> rfl

theorem slots_linkAfter (prev target : Option Nat) (index : Nat) :
    (list.linkAfter prev target).slots[index]? = (list.slots[index]?).map fun slot =>
      { slot with next := if prev = some index then target else slot.next } := by
  cases prev with
  | none => cases found : list.slots[index]? <;> simp [linkAfter, found]
  | some before =>
    simp only [linkAfter, Array.getElem?_modify, Option.some.injEq]
    split <;> cases list.slots[index]? <;> simp_all

theorem slots_linkBefore (next target : Option Nat) (index : Nat) :
    (list.linkBefore next target).slots[index]? = (list.slots[index]?).map fun slot =>
      { slot with prev := if next = some index then target else slot.prev } := by
  cases next with
  | none => cases found : list.slots[index]? <;> simp [linkBefore, found]
  | some after =>
    simp only [linkBefore, Array.getElem?_modify, Option.some.injEq]
    split <;> cases list.slots[index]? <;> simp_all

/-- A new slot goes at the end of the arena, and its neighbours are pointed at it. -/
theorem slots_link (entry : Entry) (prev next : Option Nat) (fresh : Option Label) (index : Nat) :
    (list.link entry prev next fresh).2.slots[index]? =
      ((list.slots.push ⟨some entry, prev, next⟩)[index]?).map fun slot =>
        { slot with next := if prev = some index then some list.slots.size else slot.next,
                    prev := if next = some index then some list.slots.size else slot.prev } := by
  simp only [link, slots_linkBefore, slots_linkAfter, Option.map_map]
  rfl

end Slots

end EntryList

/-! ## Coherent lists -/

namespace EntryList

/-- `order` lists the live slots of a list in the order of its links: each live slot once, the
ends of the list at the ends, every slot linked forwards and backwards to its neighbours in
`order`, and `size` counting them. -/
structure Coherent (list : EntryList) (order : List Nat) : Prop where
  nodup : order.Nodup
  live : ∀ index, index ∈ order ↔ ∃ entry, list.get ⟨index⟩ = some entry
  first : list.first = order.head?
  last : list.last = order.getLast?
  next : ∀ index ∈ order, (list.slots[index]?).map EntrySlot.next = some (successorIn order index)
  prev : ∀ index ∈ order,
    (list.slots[index]?).map EntrySlot.prev = some (successorIn order.reverse index)
  size : list.size = order.length

theorem Coherent.empty : Coherent {} [] where
  nodup := List.nodup_nil
  live index := by simp [get]
  first := rfl
  last := rfl
  next := by simp
  prev := by simp
  size := rfl

theorem Coherent.lt_size {list : EntryList} {order : List Nat} (coherent : Coherent list order)
    {index : Nat} (member : index ∈ order) : index < list.slots.size := by
  obtain ⟨entry, found⟩ := (coherent.live index).mp member
  by_contra outside
  simp [get, Array.getElem?_eq_none (Nat.le_of_not_lt outside)] at found

section Link

variable (list : EntryList) (entry : Entry) (prev next : Option Nat) (fresh : Option Label)

@[simp] theorem get_link (id : EntryId) :
    (list.link entry prev next fresh).2.get id =
      if id.index = list.slots.size then some entry else list.get id := by
  by_cases isNew : id.index = list.slots.size
  · simp [get, slots_link, isNew]
  · simp only [get, slots_link, Array.getElem?_push, isNew, if_false]
    cases list.slots[id.index]? <;> rfl

@[simp] theorem first_link :
    (list.link entry prev next fresh).2.first =
      if prev = none then some list.slots.size else list.first := by
  cases prev <;> cases next <;> simp [link, linkAfter, linkBefore]

@[simp] theorem last_link :
    (list.link entry prev next fresh).2.last =
      if next = none then some list.slots.size else list.last := by
  cases prev <;> cases next <;> simp [link, linkAfter, linkBefore]

@[simp] theorem size_link : (list.link entry prev next fresh).2.size = list.size + 1 := by
  cases prev <;> cases next <;> simp [link, linkAfter, linkBefore]

@[simp] theorem slots_size_link :
    (list.link entry prev next fresh).2.slots.size = list.slots.size + 1 := by
  simp [link]

@[simp] theorem nextLabel_link : (list.link entry prev next fresh).2.nextLabel = fresh := by
  simp [link]

end Link


/-- A new slot between two neighbours in the order takes its place between them. -/
theorem Coherent.link {list : EntryList} {front back : List Nat}
    (coherent : Coherent list (front ++ back)) (entry : Entry) (fresh : Option Label) :
    Coherent (list.link entry front.getLast? back.head? fresh).2
      (front ++ list.slots.size :: back) := by
  have outside : list.slots.size ∉ front ++ back := fun member =>
    lt_irrefl _ (coherent.lt_size member)
  have distinct : (front ++ list.slots.size :: back).Nodup :=
    List.nodup_middle.mpr (List.nodup_cons.mpr ⟨outside, coherent.nodup⟩)
  have old : ∀ {index}, index ∈ front ++ list.slots.size :: back → index ≠ list.slots.size →
      index ∈ front ++ back := fun member different => by simpa [different] using member
  constructor
  · exact distinct
  · intro index
    by_cases isNew : index = list.slots.size
    · simp [isNew]
    · simp only [get_link, isNew, if_false, ← coherent.live, List.mem_append, List.mem_cons]
      tauto
  · cases front <;> simp [coherent.first]
  · cases back <;> simp [coherent.last, List.getLast?_append]
  · intro index member
    rw [successorIn_insert_eq distinct member, slots_link, Array.getElem?_push]
    by_cases isNew : index = list.slots.size
    · subst isNew
      have notPrev : front.getLast? ≠ some list.slots.size := fun isLast =>
        outside (List.mem_append_left back (List.mem_of_getLast? isLast))
      simp [notPrev]
    · have linked := coherent.next index (old member isNew)
      rw [if_neg isNew]
      cases found : list.slots[index]? with
      | none => simp [found] at linked
      | some slot =>
        simp only [found, Option.map_some, Option.some.injEq] at linked ⊢
        split <;> simp_all
  · intro index member
    rw [successorIn_reverse_insert_eq distinct member, slots_link, Array.getElem?_push]
    by_cases isNew : index = list.slots.size
    · subst isNew
      have notNext : back.head? ≠ some list.slots.size := fun isHead =>
        outside (List.mem_append_right front (List.mem_of_mem_head? isHead))
      simp [notNext]
    · have linked := coherent.prev index (old member isNew)
      rw [if_neg isNew]
      cases found : list.slots[index]? with
      | none => simp [found] at linked
      | some slot =>
        simp only [found, Option.map_some, Option.some.injEq] at linked ⊢
        split <;> simp_all
  · simp only [size_link, coherent.size, List.length_append, List.length_cons]
    omega

section Unlink

variable (list : EntryList) (index : Nat) (slot : EntrySlot)

/-- Unlinking empties a slot and points its neighbours at each other. -/
theorem slots_unlink (other : Nat) :
    (list.unlink index slot).slots[other]? =
      ((list.slots.set! index ⟨none, none, none⟩)[other]?).map fun current =>
        { current with next := if slot.prev = some other then slot.next else current.next,
                       prev := if slot.next = some other then slot.prev else current.prev } := by
  simp only [unlink, slots_linkBefore, slots_linkAfter, Option.map_map]
  rfl

@[simp] theorem get_unlink (id : EntryId) :
    (list.unlink index slot).get id = if id.index = index then none else list.get id := by
  simp only [get, slots_unlink, Array.set!_eq_setIfInBounds, Array.getElem?_setIfInBounds]
  by_cases emptied : index = id.index
  · simp [emptied]
  · simp only [emptied, if_false, Ne.symm emptied]
    cases list.slots[id.index]? <;> rfl

@[simp] theorem first_unlink :
    (list.unlink index slot).first = if slot.prev = none then slot.next else list.first := by
  obtain ⟨entry, prev, next⟩ := slot
  cases prev <;> cases next <;> simp [unlink, linkAfter, linkBefore]

@[simp] theorem last_unlink :
    (list.unlink index slot).last = if slot.next = none then slot.prev else list.last := by
  obtain ⟨entry, prev, next⟩ := slot
  cases prev <;> cases next <;> simp [unlink, linkAfter, linkBefore]

@[simp] theorem size_unlink : (list.unlink index slot).size = list.size - 1 := by
  obtain ⟨entry, prev, next⟩ := slot
  cases prev <;> cases next <;> simp [unlink, linkAfter, linkBefore]

@[simp] theorem slots_size_unlink : (list.unlink index slot).slots.size = list.slots.size := by
  simp [unlink]

end Unlink

/-- Unlinking a live slot takes it out of the order. -/
theorem Coherent.unlink {list : EntryList} {front back : List Nat} {index : Nat} {slot : EntrySlot}
    (coherent : Coherent list (front ++ index :: back)) (found : list.slots[index]? = some slot) :
    Coherent (list.unlink index slot) (front ++ back) := by
  have member : index ∈ front ++ index :: back := by simp
  have distinct : (index :: (front ++ back)).Nodup := List.nodup_middle.mp coherent.nodup
  have slotNext : slot.next = back.head? := by
    have linked := coherent.next index member
    rw [found, successorIn_insert_eq coherent.nodup member, if_pos rfl] at linked
    simpa using linked
  have slotPrev : slot.prev = front.getLast? := by
    have linked := coherent.prev index member
    rw [found, successorIn_reverse_insert_eq coherent.nodup member, if_pos rfl] at linked
    simpa using linked
  have other : ∀ {current}, current ∈ front ++ back → current ≠ index := fun kept same =>
    (List.nodup_cons.mp distinct).1 (same ▸ kept)
  have wasMember : ∀ {current}, current ∈ front ++ back → current ∈ front ++ index :: back :=
    fun kept => by simp only [List.mem_append, List.mem_cons] at kept ⊢; tauto
  constructor
  · exact (List.nodup_cons.mp distinct).2
  · intro current
    by_cases emptied : current = index
    · subst emptied
      simp [(List.nodup_cons.mp distinct).1]
    · simp only [get_unlink, emptied, if_false, ← coherent.live, List.mem_append, List.mem_cons]
      tauto
  · rw [first_unlink, slotPrev, slotNext, coherent.first]
    cases front <;> simp
  · rw [last_unlink, slotPrev, slotNext, coherent.last]
    cases back <;> simp [List.getLast?_append]
  · intro current kept
    have linked := coherent.next current (wasMember kept)
    rw [successorIn_insert_eq coherent.nodup (wasMember kept), if_neg (other kept)] at linked
    rw [slots_unlink, Array.set!_eq_setIfInBounds, Array.getElem?_setIfInBounds,
      if_neg (Ne.symm (other kept)), slotPrev, slotNext]
    cases currentFound : list.slots[current]? with
    | none => simp [currentFound] at linked
    | some currentSlot =>
      simp only [currentFound, Option.map_some, Option.some.injEq] at linked ⊢
      split
      · next isLast => exact (successorIn_append_of_getLast? distinct.of_cons isLast).symm
      · next notLast => simpa [notLast] using linked
  · intro current kept
    have linked := coherent.prev current (wasMember kept)
    rw [successorIn_reverse_insert_eq coherent.nodup (wasMember kept), if_neg (other kept)] at linked
    rw [slots_unlink, Array.set!_eq_setIfInBounds, Array.getElem?_setIfInBounds,
      if_neg (Ne.symm (other kept)), slotPrev, slotNext]
    cases currentFound : list.slots[current]? with
    | none => simp [currentFound] at linked
    | some currentSlot =>
      simp only [currentFound, Option.map_some, Option.some.injEq] at linked ⊢
      split
      · next isHead =>
        have reversed : (front ++ back).reverse = back.reverse ++ front.reverse := by simp
        rw [reversed, successorIn_append_of_getLast? (reversed ▸ List.nodup_reverse.mpr distinct.of_cons)
          (by simpa [List.getLast?_reverse] using isHead)]
        simp [List.head?_reverse]
      · next notHead => simpa [notHead] using linked
  · simp only [size_unlink, coherent.size, List.length_append, List.length_cons]
    omega

end EntryList

/-! ## Fresh labels -/

namespace EntryList

section Labels

variable (list : EntryList)

/-- The index of the label `newLabel` hands out next. -/
def freshIndex : Nat := (list.nextLabel.map Label.index).getD 0

theorem getD_nextLabel : list.nextLabel.getD ⟨0⟩ = ⟨list.freshIndex⟩ := by
  unfold freshIndex
  cases list.nextLabel <;> rfl

/-- `newLabel` hands out the fresh label and counts past it, unless it is the last label. -/
theorem newLabel_eq :
    list.newLabel = if list.freshIndex < Label.last.index
      then .ok (⟨list.freshIndex⟩, { list with nextLabel := some ⟨list.freshIndex + 1⟩ })
      else .error Label.overflow := by
  simp only [newLabel, getD_nextLabel, Label.next]
  split <;> rfl

/-- Adding a label at or past the fresh label counts past it; anything else leaves it. -/
theorem nextLabelAfter_label (label : Label) :
    list.nextLabelAfter (.label label) =
      if list.freshIndex ≤ label.index then some <$> label.next else .ok list.nextLabel := by
  cases current : list.nextLabel with
  | none => simp [nextLabelAfter, current, freshIndex]
  | some fresh => simp [nextLabelAfter, current, freshIndex, Label.le_iff, pure, Except.pure]

@[simp] theorem freshIndex_link (entry : Entry) (prev next : Option Nat) (fresh : Option Label) :
    (list.link entry prev next fresh).2.freshIndex = (fresh.map Label.index).getD 0 := by
  simp [freshIndex]

@[simp] theorem freshIndex_unlink (index : Nat) (slot : EntrySlot) :
    (list.unlink index slot).freshIndex = list.freshIndex := by
  obtain ⟨entry, prev, next⟩ := slot
  cases prev <;> cases next <;> rfl

end Labels

section NewLabel

variable {list list' : EntryList}

theorem newLabel_eq_ok {label : Label} :
    list.newLabel = .ok (label, list') ↔ list.freshIndex < Label.last.index ∧
      label = ⟨list.freshIndex⟩ ∧ list' = { list with nextLabel := some ⟨list.freshIndex + 1⟩ } := by
  rw [newLabel_eq]
  split
  · next below =>
    simp only [Except.ok.injEq, Prod.mk.injEq]
    constructor
    · rintro ⟨rfl, rfl⟩
      exact ⟨below, rfl, rfl⟩
    · rintro ⟨-, rfl, rfl⟩
      exact ⟨rfl, rfl⟩
  · next atLast =>
    simp only [reduceCtorEq, false_iff, not_and]
    intro below
    exact absurd below atLast

theorem newLabel_eq_error {message : String} :
    list.newLabel = .error message ↔ Label.last.index ≤ list.freshIndex ∧ message = Label.overflow := by
  rw [newLabel_eq]
  split
  · next below =>
    simp only [reduceCtorEq, false_iff, not_and]
    intro atLast
    omega
  · next atLast =>
    simp only [Except.error.injEq]
    constructor
    · intro same
      exact ⟨by omega, same.symm⟩
    · rintro ⟨-, rfl⟩
      rfl

/-- A label handed out is the fresh label, and the fresh label moves just past it. -/
theorem freshIndex_of_newLabel_eq_ok {label : Label} (handed : list.newLabel = .ok (label, list')) :
    label.index = list.freshIndex ∧ list'.freshIndex = list.freshIndex + 1 ∧
      list'.freshIndex ≤ Label.last.index := by
  obtain ⟨below, rfl, rfl⟩ := newLabel_eq_ok.mp handed
  exact ⟨rfl, rfl, below⟩

end NewLabel

/-- Adding `entry` would count past the last label: it is a label at or past both the fresh
label and the last label. -/
def PastLast (list : EntryList) (entry : Entry) : Prop :=
  ∃ label, entry = .label label ∧ list.freshIndex ≤ label.index ∧ Label.last.index ≤ label.index

end EntryList

/-! ## The editing calls -/

namespace EntryList

section Calls

variable {list list' : EntryList}

/-- What a successful `remove` did: the slot held an entry that is not a label, and was
unlinked. -/
theorem remove_eq_some {id : EntryId} {entry : Entry} :
    list.remove id = some (entry, list') ↔
      ∃ slot, list.slots[id.index]? = some slot ∧ slot.entry = some entry ∧
        entry.isLabel = false ∧ list' = list.unlink id.index slot := by
  simp only [remove, Option.bind_eq_bind, Option.bind_eq_some_iff]
  constructor
  · rintro ⟨slot, found, held, holds, removed⟩
    split at removed
    · cases removed
    · next notLabel =>
      simp only [Option.some.injEq, Prod.mk.injEq] at removed
      obtain ⟨rfl, rfl⟩ := removed
      exact ⟨slot, found, holds, by simpa using notLabel, rfl⟩
  · rintro ⟨slot, found, held, notLabel, rfl⟩
    exact ⟨slot, found, entry, held, by simp [notLabel]⟩

/-- What a successful `replace` did: neither entry is a label, and the slot holds the new
entry. -/
theorem replace_eq_some {id : EntryId} {entry old : Entry} :
    list.replace id entry = some (old, list') ↔
      entry.isLabel = false ∧ ∃ slot, list.slots[id.index]? = some slot ∧ slot.entry = some old ∧
        old.isLabel = false ∧
        list' = { list with slots := list.slots.set! id.index { slot with entry := some entry } } := by
  simp only [replace, Option.bind_eq_bind]
  split
  · next isLabel => simp [isLabel]
  · next notLabel =>
    simp only [Option.bind_eq_some_iff, Bool.not_eq_true] at notLabel ⊢
    constructor
    · rintro ⟨slot, found, held, holds, replaced⟩
      split at replaced
      · cases replaced
      · next oldNotLabel =>
        simp only [Option.some.injEq, Prod.mk.injEq] at replaced
        obtain ⟨rfl, rfl⟩ := replaced
        exact ⟨notLabel, slot, found, holds, by simpa using oldNotLabel, rfl⟩
    · rintro ⟨-, slot, found, held, oldNotLabel, rfl⟩
      exact ⟨slot, found, old, held, by simp [oldNotLabel]⟩

/-- After a successful `replace` the handle resolves to the new entry, every other handle as
before. -/
theorem get_of_replace_eq_some {id : EntryId} {entry old : Entry}
    (replaced : list.replace id entry = some (old, list')) (other : EntryId) :
    list'.get other = if other.index = id.index then some entry else list.get other := by
  obtain ⟨-, slot, found, -, -, rfl⟩ := replace_eq_some.mp replaced
  have inside : id.index < list.slots.size := by
    by_contra outside
    simp [Array.getElem?_eq_none (Nat.le_of_not_lt outside)] at found
  by_cases same : other.index = id.index
  · simp [get, same, inside]
  · simp [get, same, Ne.symm same]

/-- What a successful `alloc` did: the fresh label moved as the entry asks, and the entry was
linked into the next slot. -/
theorem alloc_eq_ok {entry : Entry} {prev next : Option Nat} {id : EntryId} :
    list.alloc entry prev next = .ok (id, list') ↔
      ∃ fresh, list.nextLabelAfter entry = .ok fresh ∧ id = ⟨list.slots.size⟩ ∧
        list' = (list.link entry prev next fresh).2 := by
  rw [alloc, map_eq_ok]
  constructor
  · rintro ⟨fresh, counted, linked⟩
    cases linked
    exact ⟨fresh, counted, rfl, rfl⟩
  · rintro ⟨fresh, counted, rfl, rfl⟩
    exact ⟨fresh, counted, rfl⟩

/-- `alloc` fails exactly when the entry is a label that would count past the last label. -/
theorem alloc_eq_error {entry : Entry} {prev next : Option Nat} {message : String} :
    list.alloc entry prev next = .error message ↔ list.PastLast entry ∧ message = Label.overflow := by
  rw [alloc, map_eq_error]
  cases entry with
  | label label =>
    rw [nextLabelAfter_label]
    split
    · next atOrPast =>
      rw [map_eq_error, Label.next_eq_error]
      constructor
      · rintro ⟨atLast, rfl⟩
        exact ⟨⟨label, rfl, atOrPast, atLast⟩, rfl⟩
      · rintro ⟨⟨other, same, -, atLast⟩, rfl⟩
        cases same
        exact ⟨atLast, rfl⟩
    · next before =>
      simp only [reduceCtorEq, false_iff, not_and]
      rintro ⟨other, same, atOrPast, -⟩
      cases same
      exact absurd atOrPast before
  | instruction _ | branch _ =>
    simp only [nextLabelAfter, pure, Except.pure, reduceCtorEq, false_iff, not_and]
    rintro ⟨other, same, -⟩
    cases same

/-- What a successful insertion did: the anchor is live, and the entry was allocated next to it. -/
theorem insertBefore_eq_ok_some {anchor id : EntryId} {entry : Entry} :
    list.insertBefore anchor entry = .ok (some (id, list')) ↔
      ∃ slot, list.live anchor = some slot ∧
        list.alloc entry slot.prev (some anchor.index) = .ok (id, list') := by
  rw [insertBefore, mapM_eq_ok_some]

theorem insertAfter_eq_ok_some {anchor id : EntryId} {entry : Entry} :
    list.insertAfter anchor entry = .ok (some (id, list')) ↔
      ∃ slot, list.live anchor = some slot ∧
        list.alloc entry (some anchor.index) slot.next = .ok (id, list') := by
  rw [insertAfter, mapM_eq_ok_some]

theorem get_of_alloc_eq_ok {entry : Entry} {prev next : Option Nat} {id : EntryId}
    (allocated : list.alloc entry prev next = .ok (id, list')) (other : EntryId) :
    list'.get other = if other.index = list.slots.size then some entry else list.get other := by
  obtain ⟨fresh, -, -, rfl⟩ := alloc_eq_ok.mp allocated
  exact get_link ..

theorem slots_size_of_alloc_eq_ok {entry : Entry} {prev next : Option Nat} {id : EntryId}
    (allocated : list.alloc entry prev next = .ok (id, list')) :
    list'.slots.size = list.slots.size + 1 := by
  obtain ⟨fresh, -, -, rfl⟩ := alloc_eq_ok.mp allocated
  exact slots_size_link ..

/-- A successful `alloc` never lowers the fresh label, puts it past a label it adds, and keeps it
within the last label. -/
theorem freshIndex_alloc {entry : Entry} {prev next : Option Nat} {id : EntryId}
    (allocated : list.alloc entry prev next = .ok (id, list')) :
    list.freshIndex ≤ list'.freshIndex ∧
      (∀ label, entry = .label label → label.index < list'.freshIndex) ∧
      (list.freshIndex ≤ Label.last.index → list'.freshIndex ≤ Label.last.index) := by
  obtain ⟨fresh, counted, -, rfl⟩ := alloc_eq_ok.mp allocated
  rw [freshIndex_link]
  cases entry with
  | label label =>
    rw [nextLabelAfter_label] at counted
    split at counted
    · next atOrPast =>
      -- the label moves the fresh label just past itself
      obtain ⟨following, stepped, rfl⟩ := map_eq_ok.mp counted
      obtain ⟨below, rfl⟩ := Label.next_eq_ok.mp stepped
      refine ⟨?_, fun other same => ?_, fun _ => ?_⟩
      · simp only [Option.map_some, Option.getD_some]
        omega
      · cases same
        simp
      · simp only [Option.map_some, Option.getD_some]
        omega
    · next before =>
      cases counted
      refine ⟨le_rfl, fun other same => ?_, fun within => within⟩
      cases same
      exact Nat.lt_of_not_le before
  | instruction _ | branch _ =>
    cases counted
    exact ⟨le_rfl, fun _ same => (by cases same), fun within => within⟩

end Calls

/-! ## Every call keeps a list coherent -/

section Steps

variable {list list' : EntryList} {order : List Nat}

/-- A live slot splits the order around itself, and links to its two neighbours there. -/
theorem Coherent.split (coherent : Coherent list order) {index : Nat} {slot : EntrySlot}
    (found : list.slots[index]? = some slot) (holds : slot.entry.isSome) :
    ∃ front back, order = front ++ index :: back ∧ slot.prev = front.getLast? ∧
      slot.next = back.head? := by
  have member : index ∈ order := by
    obtain ⟨entry, held⟩ := Option.isSome_iff_exists.mp holds
    exact (coherent.live index).mpr ⟨entry, by simp [get, found, held]⟩
  obtain ⟨front, back, rfl⟩ := List.append_of_mem member
  have hasIndex : index ∈ front ++ index :: back := by simp
  have linkedNext := coherent.next index hasIndex
  have linkedPrev := coherent.prev index hasIndex
  rw [found, successorIn_insert_eq coherent.nodup hasIndex, if_pos rfl] at linkedNext
  rw [found, successorIn_reverse_insert_eq coherent.nodup hasIndex, if_pos rfl] at linkedPrev
  exact ⟨front, back, rfl, by simpa using linkedPrev, by simpa using linkedNext⟩

theorem Coherent.newLabel (coherent : Coherent list order) {label : Label}
    (handed : list.newLabel = .ok (label, list')) : Coherent list' order := by
  obtain ⟨-, -, rfl⟩ := newLabel_eq_ok.mp handed
  exact ⟨coherent.nodup, coherent.live, coherent.first, coherent.last, coherent.next, coherent.prev,
    coherent.size⟩

theorem Coherent.clear (list : EntryList) : Coherent list.clear [] where
  nodup := List.nodup_nil
  live index := by simp [EntryList.clear, get]
  first := rfl
  last := rfl
  next := by simp
  prev := by simp
  size := rfl

theorem Coherent.pushBack (coherent : Coherent list order) {entry : Entry} {id : EntryId}
    (pushed : list.pushBack entry = .ok (id, list')) :
    id.index = list.slots.size ∧ Coherent list' (order ++ [list.slots.size]) := by
  obtain ⟨fresh, -, rfl, rfl⟩ := alloc_eq_ok.mp pushed
  have appended := (show Coherent list (order ++ []) by simpa using coherent).link entry fresh
  rw [coherent.last]
  exact ⟨rfl, by simpa using appended⟩

theorem Coherent.insertBefore (coherent : Coherent list order) {anchor id : EntryId}
    {entry : Entry} (inserted : list.insertBefore anchor entry = .ok (some (id, list'))) :
    ∃ front back, order = front ++ anchor.index :: back ∧ id.index = list.slots.size ∧
      Coherent list' (front ++ id.index :: anchor.index :: back) := by
  obtain ⟨slot, isLive, allocated⟩ := insertBefore_eq_ok_some.mp inserted
  obtain ⟨fresh, -, rfl, rfl⟩ := alloc_eq_ok.mp allocated
  obtain ⟨found, holds⟩ := Option.filter_eq_some_iff.mp isLive
  obtain ⟨front, back, rfl, slotPrev, -⟩ := coherent.split found holds
  rw [slotPrev]
  exact ⟨front, back, rfl, rfl, coherent.link entry fresh⟩

theorem Coherent.insertAfter (coherent : Coherent list order) {anchor id : EntryId}
    {entry : Entry} (inserted : list.insertAfter anchor entry = .ok (some (id, list'))) :
    ∃ front back, order = front ++ anchor.index :: back ∧ id.index = list.slots.size ∧
      Coherent list' (front ++ anchor.index :: id.index :: back) := by
  obtain ⟨slot, isLive, allocated⟩ := insertAfter_eq_ok_some.mp inserted
  obtain ⟨fresh, -, rfl, rfl⟩ := alloc_eq_ok.mp allocated
  obtain ⟨found, holds⟩ := Option.filter_eq_some_iff.mp isLive
  obtain ⟨front, back, rfl, -, slotNext⟩ := coherent.split found holds
  have regrouped : front ++ anchor.index :: back = (front ++ [anchor.index]) ++ back := by simp
  have placed := (regrouped ▸ coherent).link entry fresh
  simp only [List.getLast?_append, List.getLast?_singleton, Option.some_or] at placed
  rw [slotNext]
  exact ⟨front, back, rfl, rfl, by simpa using placed⟩

theorem Coherent.remove (coherent : Coherent list order) {id : EntryId} {entry : Entry}
    (removed : list.remove id = some (entry, list')) :
    ∃ front back, order = front ++ id.index :: back ∧ Coherent list' (front ++ back) := by
  obtain ⟨slot, found, held, -, rfl⟩ := remove_eq_some.mp removed
  obtain ⟨front, back, rfl, -, -⟩ := coherent.split found (by simp [held])
  exact ⟨front, back, rfl, coherent.unlink found⟩

theorem Coherent.replace (coherent : Coherent list order) {id : EntryId} {entry old : Entry}
    (replaced : list.replace id entry = some (old, list')) : Coherent list' order := by
  obtain ⟨-, slot, found, held, -, rfl⟩ := replace_eq_some.mp replaced
  have inside : id.index < list.slots.size := by
    by_contra outside
    simp [Array.getElem?_eq_none (Nat.le_of_not_lt outside)] at found
  -- only the entry of one live slot changes: liveness and every link stay as they were
  have reads : ∀ index, (list.slots.setIfInBounds id.index { slot with entry := some entry })[index]? =
      if id.index = index then some { slot with entry := some entry } else list.slots[index]? := by
    intro index
    simp [Array.getElem?_setIfInBounds, inside]
  refine ⟨coherent.nodup, fun index => ?_, coherent.first, coherent.last, fun index member => ?_,
    fun index member => ?_, coherent.size⟩
  · rw [coherent.live]
    by_cases same : id.index = index
    · subst same
      simp [get, reads, found, held]
    · simp [get, reads, same]
  · by_cases same : id.index = index
    · subst same
      simpa [reads, found] using coherent.next id.index member
    · simpa [reads, same] using coherent.next index member
  · by_cases same : id.index = index
    · subst same
      simpa [reads, found] using coherent.prev id.index member
    · simpa [reads, same] using coherent.prev index member

end Steps

/-- Every label placed in the list lies below the next fresh label. -/
def PlacedBelow (list : EntryList) : Prop :=
  ∀ id label, list.get id = some (.label label) → label.index < list.freshIndex

section PlacedBelow

variable {list : EntryList}

theorem PlacedBelow.alloc (below : list.PlacedBelow) {list' : EntryList} {entry : Entry}
    {prev next : Option Nat} {id : EntryId} (allocated : list.alloc entry prev next = .ok (id, list')) :
    list'.PlacedBelow := by
  obtain ⟨grows, newBelow, -⟩ := freshIndex_alloc allocated
  intro other label placed
  rw [get_of_alloc_eq_ok allocated] at placed
  split at placed
  · exact newBelow label (Option.some.inj placed)
  · exact Nat.lt_of_lt_of_le (below other label placed) grows

theorem PlacedBelow.newLabel (below : list.PlacedBelow) {list' : EntryList} {label : Label}
    (handed : list.newLabel = .ok (label, list')) : list'.PlacedBelow := by
  obtain ⟨-, raised, -⟩ := freshIndex_of_newLabel_eq_ok handed
  obtain ⟨-, -, rfl⟩ := newLabel_eq_ok.mp handed
  intro id placedLabel placed
  have wasBelow := below id placedLabel placed
  omega

theorem PlacedBelow.unlink (below : list.PlacedBelow) (index : Nat) (slot : EntrySlot) :
    (list.unlink index slot).PlacedBelow := by
  intro id label placed
  rw [get_unlink] at placed
  split at placed
  · cases placed
  · simpa using below id label placed

theorem PlacedBelow.replace (below : list.PlacedBelow) {list' : EntryList} {id : EntryId}
    {entry old : Entry} (replaced : list.replace id entry = some (old, list')) :
    list'.PlacedBelow ∧ list'.freshIndex = list.freshIndex := by
  obtain ⟨notLabel, slot, found, -, -, rfl⟩ := replace_eq_some.mp replaced
  refine ⟨fun other label placed => ?_, rfl⟩
  simp only [get, Array.set!_eq_setIfInBounds, Array.getElem?_setIfInBounds] at placed
  split at placed
  · next same =>
    split at placed
    · simp only [Option.bind_some, Option.some.injEq] at placed
      simp [placed, Entry.isLabel] at notLabel
    · cases placed
  · exact below other label placed

end PlacedBelow

/-! ## Walking a coherent list -/

section Walk

variable {list : EntryList} {order : List Nat}

/-- The entries of the slots in `order`, with their handles. -/
def entriesAt (list : EntryList) (order : List Nat) : List (EntryId × Entry) :=
  order.filterMap fun index => (list.get ⟨index⟩).map fun entry => (⟨index⟩, entry)

theorem Coherent.length_le (coherent : Coherent list order) : order.length ≤ list.slots.size := by
  rw [← List.toFinset_card_of_nodup coherent.nodup, ← Finset.card_range list.slots.size]
  exact Finset.card_le_card fun index member =>
    Finset.mem_range.mpr (coherent.lt_size (List.mem_toFinset.mp member))

/-- Walking from a slot follows the links through the rest of the order. -/
theorem Coherent.walk_eq {front back : List Nat} (coherent : Coherent list (front ++ back))
    (fuel : Nat) (enough : back.length ≤ fuel) :
    list.walk fuel back.head? = list.entriesAt back := by
  induction back generalizing front fuel with
  | nil => cases fuel <;> rfl
  | cons index rest ih =>
    obtain ⟨fuel, rfl⟩ : ∃ remaining, fuel = remaining + 1 :=
      ⟨fuel - 1, by simp at enough; omega⟩
    have member : index ∈ front ++ index :: rest := by simp
    obtain ⟨entry, held⟩ := (coherent.live index).mp member
    obtain ⟨slot, found, holds⟩ := Option.bind_eq_some_iff.mp held
    have linked := coherent.next index member
    rw [found, successorIn_insert_eq coherent.nodup member, if_pos rfl] at linked
    have regrouped : front ++ index :: rest = (front ++ [index]) ++ rest := by simp
    obtain ⟨slotEntry, slotPrev, slotNext⟩ := slot
    simp only [Option.map_some, Option.some.injEq] at linked holds
    subst holds linked
    have walked := ih (regrouped ▸ coherent) fuel (by simpa using enough)
    simp [walk, found, walked, entriesAt, held]

/-- Walking a coherent list shows the entries of its order. -/
theorem Coherent.items_eq (coherent : Coherent list order) :
    list.items = list.entriesAt order := by
  rw [items, coherent.first]
  exact (show Coherent list ([] ++ order) from coherent).walk_eq _ coherent.length_le

theorem Coherent.ids_eq (coherent : Coherent list order) :
    list.items.map Prod.fst = order.map EntryId.mk := by
  rw [coherent.items_eq, entriesAt, List.map_filterMap]
  refine List.filterMap_eq_map_iff_forall_eq_some.mpr fun index member => ?_
  obtain ⟨entry, held⟩ := (coherent.live index).mp member
  simp [held]

theorem Coherent.next_eq (coherent : Coherent list order) {index : Nat} (member : index ∈ order) :
    list.next ⟨index⟩ = (successorIn order index).map EntryId.mk := by
  obtain ⟨entry, held⟩ := (coherent.live index).mp member
  have linked := coherent.next index member
  cases found : list.slots[index]? with
  | none => simp [get, found] at held
  | some slot =>
    simp only [found, Option.map_some, Option.some.injEq] at linked
    simp only [get, found, Option.bind_some] at held
    simp [EntryList.next, EntryList.live, found, Option.filter_some, held, linked]

theorem Coherent.prev_eq (coherent : Coherent list order) {index : Nat} (member : index ∈ order) :
    list.prev ⟨index⟩ = (successorIn order.reverse index).map EntryId.mk := by
  obtain ⟨entry, held⟩ := (coherent.live index).mp member
  have linked := coherent.prev index member
  cases found : list.slots[index]? with
  | none => simp [get, found] at held
  | some slot =>
    simp only [found, Option.map_some, Option.some.injEq] at linked
    simp only [get, found, Option.bind_some] at held
    simp [EntryList.prev, EntryList.live, found, Option.filter_some, held, linked]

end Walk

/-- What walking a list shows: each live entry once with its handle, as many as `size` counts,
starting at the first handle and ending at the last, each handle linked forwards and backwards
to the next one. -/
structure Iterates (list : EntryList) : Prop where
  length : list.items.length = list.size
  nodup : (list.items.map Prod.fst).Nodup
  mem : ∀ id entry, (id, entry) ∈ list.items ↔ list.get id = some entry
  first : list.firstId = (list.items.map Prod.fst).head?
  last : list.lastId = (list.items.map Prod.fst).getLast?
  linked : (list.items.map Prod.fst).IsChain fun id following =>
    list.next id = some following ∧ list.prev following = some id
  firstPrev : ∀ id, list.firstId = some id → list.prev id = none
  lastNext : ∀ id, list.lastId = some id → list.next id = none

theorem Coherent.mem_items {list : EntryList} {order : List Nat} (coherent : Coherent list order)
    (id : EntryId) (entry : Entry) : (id, entry) ∈ list.items ↔ list.get id = some entry := by
  rw [coherent.items_eq, entriesAt, List.mem_filterMap]
  constructor
  · rintro ⟨index, -, found⟩
    obtain ⟨held, rfl⟩ : list.get ⟨index⟩ = some entry ∧ EntryId.mk index = id := by
      simpa using found
    exact held
  · intro held
    exact ⟨id.index, (coherent.live id.index).mpr ⟨entry, held⟩, by simp [held]⟩

theorem Coherent.iterates {list : EntryList} {order : List Nat} (coherent : Coherent list order) :
    list.Iterates := by
  have ids := coherent.ids_eq
  have ends : ∀ {index}, order.head? = some index → successorIn order.reverse index = none :=
    fun isFirst => successorIn_getLast? (List.nodup_reverse.mpr coherent.nodup)
      (by simpa [List.getLast?_reverse] using isFirst)
  constructor
  · rw [← List.length_map Prod.fst, ids, List.length_map, coherent.size]
  · rw [ids]
    exact coherent.nodup.map fun _ _ same => congrArg EntryId.index same
  · exact coherent.mem_items
  · rw [ids, firstId, coherent.first, List.head?_map]
  · rw [ids, lastId, coherent.last, List.getLast?_map]
  · rw [ids]
    refine List.isChain_map_of_isChain EntryId.mk (fun index following linked => ?_)
      (isChain_successorIn [] order coherent.nodup)
    obtain ⟨forwards, backwards⟩ := linked
    have members := mem_of_successorIn_eq_some forwards
    simp only [List.nil_append] at forwards backwards
    rw [coherent.next_eq members.1, coherent.prev_eq members.2, forwards, backwards]
    exact ⟨rfl, rfl⟩
  · intro id isFirst
    rw [firstId, coherent.first] at isFirst
    obtain ⟨index, atHead, rfl⟩ := Option.map_eq_some_iff.mp isFirst
    rw [coherent.prev_eq (List.mem_of_mem_head? atHead), ends atHead]
    rfl
  · intro id isLast
    rw [lastId, coherent.last] at isLast
    obtain ⟨index, atEnd, rfl⟩ := Option.map_eq_some_iff.mp isLast
    rw [coherent.next_eq (List.mem_of_getLast? atEnd), successorIn_getLast? coherent.nodup atEnd]
    rfl

/-! ## Refused calls -/

section Refusals

variable {list : EntryList}

theorem live_eq_none {id : EntryId} : list.live id = none ↔ list.get id = none := by
  cases found : list.slots[id.index]? with
  | none => simp [EntryList.live, get, found]
  | some slot => cases held : slot.entry <;> simp [EntryList.live, get, found, held]

/-- `remove` refuses exactly labels and handles that name nothing. -/
theorem remove_eq_none {id : EntryId} :
    list.remove id = none ↔ ∀ entry, list.get id = some entry → entry.isLabel := by
  constructor
  · intro refused entry held
    obtain ⟨slot, found, holds⟩ := Option.bind_eq_some_iff.mp held
    by_contra notLabel
    have removed := remove_eq_some.mpr ⟨slot, found, holds, by simpa using notLabel, rfl⟩
    rw [refused] at removed
    cases removed
  · intro labelled
    cases removed : list.remove id with
    | none => rfl
    | some result =>
      obtain ⟨slot, found, holds, notLabel, -⟩ := remove_eq_some.mp removed
      have isLabel := labelled result.1 (by simp [get, found, holds])
      simp [notLabel] at isLabel

/-- `replace` refuses exactly a label replacement, a label, and a handle that names nothing. -/
theorem replace_eq_none {id : EntryId} {entry : Entry} :
    list.replace id entry = none ↔
      entry.isLabel ∨ ∀ old, list.get id = some old → old.isLabel := by
  constructor
  · intro refused
    by_cases isLabel : entry.isLabel
    · exact Or.inl isLabel
    · refine Or.inr fun old held => ?_
      obtain ⟨slot, found, holds⟩ := Option.bind_eq_some_iff.mp held
      by_contra oldNotLabel
      have replaced := replace_eq_some.mpr
        ⟨by simpa using isLabel, slot, found, holds, by simpa using oldNotLabel, rfl⟩
      rw [refused] at replaced
      cases replaced
  · intro refusing
    cases replaced : list.replace id entry with
    | none => rfl
    | some result =>
      obtain ⟨notLabel, slot, found, holds, oldNotLabel, -⟩ := replace_eq_some.mp replaced
      rcases refusing with isLabel | labelled
      · simp [notLabel] at isLabel
      · have isLabel := labelled result.1 (by simp [get, found, holds])
        simp [oldNotLabel] at isLabel

/-- The insertions refuse exactly anchors that name nothing. -/
theorem insertBefore_eq_ok_none {anchor : EntryId} {entry : Entry} :
    list.insertBefore anchor entry = .ok none ↔ list.get anchor = none := by
  rw [EntryList.insertBefore, mapM_eq_ok_none, live_eq_none]

theorem insertAfter_eq_ok_none {anchor : EntryId} {entry : Entry} :
    list.insertAfter anchor entry = .ok none ↔ list.get anchor = none := by
  rw [EntryList.insertAfter, mapM_eq_ok_none, live_eq_none]

end Refusals

/-! ## Handles and labels across a call -/

/-- The label an entry places, if it is one. -/
def labelOf : Entry → Option Label
  | .label label => some label
  | _ => none

theorem labelOf_eq_none {entry : Entry} (notLabel : entry.isLabel = false) :
    labelOf entry = none := by
  cases entry <;> simp_all [labelOf, Entry.isLabel]

/-- The labels placed in the list, in list order. -/
def placedLabels (list : EntryList) : List Label :=
  list.items.filterMap fun item => labelOf item.2

section Across

variable {list list' : EntryList} {order : List Nat}

theorem Coherent.placedLabels_eq (coherent : Coherent list order) :
    list.placedLabels = order.filterMap fun index => (list.get ⟨index⟩).bind labelOf := by
  rw [placedLabels, coherent.items_eq, entriesAt, List.filterMap_filterMap]
  refine List.filterMap_congr fun index _ => ?_
  cases list.get ⟨index⟩ <;> rfl

/-- A successful `remove` empties the handle and keeps the labels in their order. -/
theorem Coherent.remove_labels (coherent : Coherent list order) {id : EntryId} {entry : Entry}
    (removed : list.remove id = some (entry, list')) :
    list.get id = some entry ∧ list'.get id = none ∧ list'.placedLabels = list.placedLabels := by
  obtain ⟨front, back, rfl, placed⟩ := coherent.remove removed
  obtain ⟨slot, found, held, notLabel, rfl⟩ := remove_eq_some.mp removed
  have distinct := List.nodup_middle.mp coherent.nodup
  -- the other slots of the order keep their entries
  have others : ∀ index ∈ front ++ back,
      ((list.unlink id.index slot).get ⟨index⟩).bind labelOf = (list.get ⟨index⟩).bind labelOf := by
    intro index member
    have different : index ≠ id.index := fun same => (List.nodup_cons.mp distinct).1 (same ▸ member)
    simp [different]
  have atId : (list.get id).bind labelOf = none := by
    simp [get, found, held, labelOf_eq_none notLabel]
  refine ⟨by simp [get, found, held], by simp, ?_⟩
  rw [placed.placedLabels_eq, coherent.placedLabels_eq, List.filterMap_congr others]
  simp [List.filterMap_append, atId]

/-- A successful `replace` puts the new entry behind the handle and keeps the labels in their
order. -/
theorem Coherent.replace_labels (coherent : Coherent list order) {id : EntryId}
    {entry old : Entry} (replaced : list.replace id entry = some (old, list')) :
    list.get id = some old ∧ list'.get id = some entry ∧
      list'.placedLabels = list.placedLabels := by
  obtain ⟨notLabel, slot, found, held, oldNotLabel, -⟩ := replace_eq_some.mp replaced
  have reads := get_of_replace_eq_some replaced
  -- at the handle both entries place no label; elsewhere nothing changed
  have same : ∀ index ∈ order,
      (list'.get ⟨index⟩).bind labelOf = (list.get ⟨index⟩).bind labelOf := by
    intro index _
    by_cases atId : index = id.index
    · rw [reads]
      simp [atId, get, found, held, labelOf_eq_none notLabel, labelOf_eq_none oldNotLabel]
    · simp [reads, atId]
  refine ⟨by simp [get, found, held], by simp [reads], ?_⟩
  rw [(coherent.replace replaced).placedLabels_eq, coherent.placedLabels_eq,
    List.filterMap_congr same]

end Across

/-! ## The walk after a call

Passes and codecs see a body as an array of entries; the list is how the same body is edited in
place. Each call changes the walk of a coherent list as the matching edit of that array would,
with handles kept beside the entries.
-/

section WalkAfter

variable {list list' : EntryList} {order : List Nat}

theorem insertIdx_length_append {α : Type} (front back : List α) (item : α) :
    (front ++ back).insertIdx front.length item = front ++ item :: back := by
  induction front with
  | nil => simp [List.insertIdx_zero]
  | cons first rest ih => simp [List.insertIdx_succ_cons, ih]

theorem entriesAt_append (list : EntryList) (front back : List Nat) :
    list.entriesAt (front ++ back) = list.entriesAt front ++ list.entriesAt back :=
  List.filterMap_append

theorem entriesAt_cons {index : Nat} {entry : Entry} (held : list.get ⟨index⟩ = some entry)
    (rest : List Nat) : list.entriesAt (index :: rest) = (⟨index⟩, entry) :: list.entriesAt rest := by
  simp [entriesAt, held]

/-- Lists that agree on the slots of `order` show the same entries there. -/
theorem entriesAt_congr (same : ∀ index ∈ order, list'.get ⟨index⟩ = list.get ⟨index⟩) :
    list'.entriesAt order = list.entriesAt order :=
  List.filterMap_congr fun index member => by rw [same index member]

/-- The walk of a coherent list, split at a live slot. -/
theorem Coherent.items_split {front back : List Nat} {index : Nat} {entry : Entry}
    (coherent : Coherent list (front ++ index :: back)) (held : list.get ⟨index⟩ = some entry) :
    list.items = list.entriesAt front ++ (⟨index⟩, entry) :: list.entriesAt back := by
  rw [coherent.items_eq, entriesAt_append, entriesAt_cons held]

/-- `remove` erases the entry from the walk, at its position there. -/
theorem Coherent.items_remove (coherent : Coherent list order) {id : EntryId} {entry : Entry}
    (removed : list.remove id = some (entry, list')) :
    ∃ position, list.items[position]? = some (id, entry) ∧
      list'.items = list.items.eraseIdx position := by
  obtain ⟨index⟩ := id
  obtain ⟨held, -, -⟩ := coherent.remove_labels removed
  obtain ⟨front, back, rfl, placed⟩ := coherent.remove removed
  obtain ⟨slot, -, -, -, rfl⟩ := remove_eq_some.mp removed
  have distinct := List.nodup_middle.mp coherent.nodup
  -- every other slot of the order keeps its entry
  have others : ∀ other ∈ front ++ back,
      (list.unlink index slot).get ⟨other⟩ = list.get ⟨other⟩ := by
    intro other member
    have different : other ≠ index := fun same => (List.nodup_cons.mp distinct).1 (same ▸ member)
    simp [different]
  have before := coherent.items_split held
  refine ⟨(list.entriesAt front).length, by simp [before], ?_⟩
  rw [placed.items_eq, entriesAt_congr others, entriesAt_append, before,
    List.eraseIdx_append_of_length_le le_rfl]
  simp

/-- `replace` sets the entry in the walk, at its position there. -/
theorem Coherent.items_replace (coherent : Coherent list order) {id : EntryId} {entry old : Entry}
    (replaced : list.replace id entry = some (old, list')) :
    ∃ position, list.items[position]? = some (id, old) ∧
      list'.items = list.items.set position (id, entry) := by
  obtain ⟨index⟩ := id
  obtain ⟨held, changed, -⟩ := coherent.replace_labels replaced
  have reads := get_of_replace_eq_some replaced
  have kept := coherent.replace replaced
  obtain ⟨front, back, rfl⟩ := List.append_of_mem ((coherent.live index).mpr ⟨old, held⟩)
  have distinct := List.nodup_middle.mp coherent.nodup
  -- only the replaced slot reads differently
  have others : ∀ other ∈ front ++ back, list'.get ⟨other⟩ = list.get ⟨other⟩ := by
    intro other member
    have different : other ≠ index := fun same => (List.nodup_cons.mp distinct).1 (same ▸ member)
    simp [reads, different]
  have before := coherent.items_split held
  refine ⟨(list.entriesAt front).length, by simp [before], ?_⟩
  rw [kept.items_split changed, before,
    entriesAt_congr fun other member => others other (List.mem_append_left back member),
    entriesAt_congr fun other member => others other (List.mem_append_right front member)]
  simp

/-- Inserting allocates a slot outside the order, and every slot of the order keeps its entry. -/
theorem Coherent.get_of_alloc_eq_ok (coherent : Coherent list order) {entry : Entry}
    {prev next : Option Nat} {id : EntryId} (allocated : list.alloc entry prev next = .ok (id, list')) :
    ∀ index ∈ order, list'.get ⟨index⟩ = list.get ⟨index⟩ := by
  intro index member
  have different : index ≠ list.slots.size := Nat.ne_of_lt (coherent.lt_size member)
  simp [EntryList.get_of_alloc_eq_ok allocated, different]

/-- `insertBefore` inserts the entry in the walk at the anchor's position. -/
theorem Coherent.items_insertBefore (coherent : Coherent list order) {anchor id : EntryId}
    {entry : Entry} (inserted : list.insertBefore anchor entry = .ok (some (id, list'))) :
    ∃ position, (list.items.map Prod.fst)[position]? = some anchor ∧
      list'.items = list.items.insertIdx position (id, entry) := by
  obtain ⟨anchorIndex⟩ := anchor
  obtain ⟨slot, -, allocated⟩ := insertBefore_eq_ok_some.mp inserted
  have others := coherent.get_of_alloc_eq_ok allocated
  obtain ⟨front, back, rfl, isNew, placed⟩ := coherent.insertBefore inserted
  obtain ⟨anchored, held⟩ := (coherent.live anchorIndex).mp (by simp)
  have added : list'.get ⟨id.index⟩ = some entry := by
    simp [EntryList.get_of_alloc_eq_ok allocated, isNew]
  have before := coherent.items_split held
  refine ⟨(list.entriesAt front).length, by simp [before], ?_⟩
  rw [placed.items_eq, entriesAt_append, entriesAt_cons added,
    entriesAt_cons (by rw [others anchorIndex (by simp)]; exact held),
    entriesAt_congr fun other member => others other (by simp [member]),
    entriesAt_congr fun other member => others other (by simp [member]), before,
    insertIdx_length_append]

/-- `insertAfter` inserts the entry in the walk just past the anchor's position. -/
theorem Coherent.items_insertAfter (coherent : Coherent list order) {anchor id : EntryId}
    {entry : Entry} (inserted : list.insertAfter anchor entry = .ok (some (id, list'))) :
    ∃ position, (list.items.map Prod.fst)[position]? = some anchor ∧
      list'.items = list.items.insertIdx (position + 1) (id, entry) := by
  obtain ⟨anchorIndex⟩ := anchor
  obtain ⟨slot, -, allocated⟩ := insertAfter_eq_ok_some.mp inserted
  have others := coherent.get_of_alloc_eq_ok allocated
  obtain ⟨front, back, rfl, isNew, placed⟩ := coherent.insertAfter inserted
  obtain ⟨anchored, held⟩ := (coherent.live anchorIndex).mp (by simp)
  have added : list'.get ⟨id.index⟩ = some entry := by
    simp [EntryList.get_of_alloc_eq_ok allocated, isNew]
  have before : list.items =
      (list.entriesAt front ++ [(⟨anchorIndex⟩, anchored)]) ++ list.entriesAt back := by
    rw [coherent.items_split held]
    simp
  have position : (list.entriesAt front).length + 1 =
      (list.entriesAt front ++ [((⟨anchorIndex⟩ : EntryId), anchored)]).length := by simp
  refine ⟨(list.entriesAt front).length, by simp [before], ?_⟩
  rw [position, before, insertIdx_length_append, placed.items_eq, entriesAt_append,
    entriesAt_cons (by rw [others anchorIndex (by simp)]; exact held), entriesAt_cons added,
    entriesAt_congr fun other member => others other (by simp [member]),
    entriesAt_congr fun other member => others other (by simp [member])]
  simp

/-- `pushBack` appends the entry to the walk. -/
theorem Coherent.items_pushBack (coherent : Coherent list order) {entry : Entry} {id : EntryId}
    (pushed : list.pushBack entry = .ok (id, list')) : list'.items = list.items ++ [(id, entry)] := by
  have others := coherent.get_of_alloc_eq_ok pushed
  obtain ⟨isNew, placed⟩ := coherent.pushBack pushed
  have added : list'.get ⟨id.index⟩ = some entry := by
    simp [EntryList.get_of_alloc_eq_ok pushed, isNew]
  rw [placed.items_eq, entriesAt_append, ← isNew, entriesAt_cons added, entriesAt_congr others,
    coherent.items_eq]
  rfl

/-- A list built from entries walks as those entries, each handle the position of its entry. -/
theorem items_ofEntries {entries : List Entry} (built : ofEntries entries = .ok list) :
    list.items = entries.zipIdx.map fun pair => (⟨pair.2⟩, pair.1) := by
  -- pushing the entries one by one onto a coherent list appends them, numbered from its size
  suffices appends : ∀ (entries : List Entry) (start : EntryList) (order : List Nat),
      Coherent start order →
      entries.foldlM (fun list entry => Prod.snd <$> list.pushBack entry) start = .ok list →
      list.items = start.items ++ (entries.zipIdx start.slots.size).map fun pair => (⟨pair.2⟩, pair.1) by
    simpa [items, walk] using appends entries {} [] Coherent.empty built
  intro entries
  induction entries with
  | nil =>
    intro start order _ built
    cases built
    simp
  | cons entry rest ih =>
    intro start order coherent built
    obtain ⟨middle, stepped, restBuilt⟩ := bind_eq_ok built
    obtain ⟨⟨id, pushedList⟩, pushed, rfl⟩ := map_eq_ok.mp stepped
    obtain ⟨isNew, placed⟩ := coherent.pushBack pushed
    rw [ih pushedList _ placed restBuilt, coherent.items_pushBack pushed,
      slots_size_of_alloc_eq_ok pushed, List.zipIdx_cons, ← isNew]
    simp

end WalkAfter

end EntryList

end ClassKit
