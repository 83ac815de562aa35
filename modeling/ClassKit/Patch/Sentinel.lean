import ClassKit.Code.Body
import ClassKit.Code.Display
import ClassKit.Log

/-!
# Opaque predicates

An obfuscator guards random jumps with a static `boolean` field that is never assigned (the
*sentinel*), so the condition always comes out the same way. The field is branched on directly,

```text
getstatic client.ob : Z
ifeq L9
```

or first copied into a local, which is then branched on. Either way each such branch becomes a
`goto` to its target and the loads go away; labels stay.

A local copy is only undone when every use of the local fits the pattern: each store to it
copies the sentinel, each load of it is branched on, and it is never incremented. Otherwise the
body is left alone and the problem reported; other oddities are reported but do not stop the
rest of the simplification.
-/

namespace ClassKit

namespace Entry

/-- Whether the entry loads the sentinel field. -/
def loadsField (sentinel : FieldRef) : Entry → Bool
  | instruction (.field .getStatic ref) => ref == sentinel
  | _ => false

/-- The target of a branch comparing one `int` with zero. -/
def zeroTestTarget? : Entry → Option Label
  | branch (.ifZero _ target) => some target
  | _ => none

end Entry

/-- The changes to make to a body: positions to drop, and branches to turn into `goto`s. -/
structure SentinelEdits where
  removals : List Nat := []
  gotos : List (Nat × Label) := []

namespace SentinelEdits

def append (edits more : SentinelEdits) : SentinelEdits :=
  ⟨edits.removals ++ more.removals, edits.gotos ++ more.gotos⟩

/-- Applies the edits to the entries. -/
def apply (edits : SentinelEdits) (entries : Array Entry) : Array Entry :=
  let removed := edits.removals.foldl (fun marks position => marks.set! position true)
    (Array.replicate entries.size false)
  let replaced := edits.gotos.foldl (fun entries (position, target) =>
    entries.set! position (.branch (.goto target))) entries
  (replaced.zip removed).filterMap fun (entry, gone) => if gone then none else some entry

end SentinelEdits

namespace Body

/-- One entry of the pass undoing copies of the sentinel into `slot`: each store to the slot
must follow a load of the sentinel, each load of it must be branched on, and it must never be
incremented. -/
def copyEditStep (entries : Array Entry) (sentinel : FieldRef) (slot : Nat) (edits : SentinelEdits) :
    Entry × Nat → Except String SentinelEdits
  | (entry, position) =>
    match entry with
    | .instruction (.store .int stored) =>
      if stored.toNat != slot then .ok edits
      else match position with
        | previous + 1 =>
          if (entries[previous]?.map (·.loadsField sentinel)) == some true then
            .ok { edits with removals := edits.removals ++ [previous, position] }
          else .error s!"local {slot} is assigned something else"
        | 0 => .error s!"local {slot} is assigned something else"
    | .instruction (.load .int loadedSlot) =>
      if loadedSlot.toNat != slot then .ok edits
      else match (entries[position + 1]?).bind Entry.zeroTestTarget? with
        | some target => .ok { removals := edits.removals ++ [position],
                               gotos := edits.gotos ++ [(position + 1, target)] }
        | none => .error s!"local {slot} is used outside a branch"
    | .instruction (.iinc incremented _) =>
      if incremented.toNat == slot then .error s!"local {slot} is incremented" else .ok edits
    | _ => .ok edits

/-- The edits undoing copies of the sentinel into `slot`, or the reason they cannot be made. -/
def localCopyEdits (entries : Array Entry) (sentinel : FieldRef) (slot : Nat) :
    Except String SentinelEdits :=
  entries.toList.zipIdx.foldlM (copyEditStep entries sentinel slot) {}

/-- One entry of the first pass: a load of the sentinel branched on is edited at once, one
stored into a local records the local, and any other is a problem. -/
def scanStep (entries : Array Entry) (sentinel : FieldRef) :
    SentinelEdits × List Nat × List String → Entry × Nat → SentinelEdits × List Nat × List String
  | (edits, slots, problems), (entry, position) =>
    if !entry.loadsField sentinel then (edits, slots, problems)
    else match entries[position + 1]? with
      | some (.branch (.ifZero _ target)) =>
        (edits.append ⟨[position], [(position + 1, target)]⟩, slots, problems)
      | some (.instruction (.store .int slot)) =>
        (edits, if slots.contains slot.toNat then slots else slots ++ [slot.toNat], problems)
      | some other =>
        (edits, slots, problems ++ ["sentinel load followed by " ++ other.text.trimAscii.toString])
      | none => (edits, slots, problems ++ ["sentinel load at the end of the code"])

/-- The first pass over the entries: the edits for the loads of the sentinel branched on
directly, the locals it is stored into (in order of first appearance), and the problems met. -/
def sentinelScan (entries : Array Entry) (sentinel : FieldRef) :
    SentinelEdits × List Nat × List String :=
  entries.toList.zipIdx.foldl (scanStep entries sentinel) ({}, [], [])

/-- The edits extended by those undoing the copies into each slot in turn, or the first reason
one copy cannot be undone. -/
def withCopyEdits (entries : Array Entry) (sentinel : FieldRef) (edits : SentinelEdits)
    (slots : List Nat) : Except String SentinelEdits :=
  slots.foldlM (fun edits slot =>
    match localCopyEdits entries sentinel slot with
    | .ok more => .ok (edits.append more)
    | .error problem => .error problem) edits

/-- Turns branches on the sentinel into `goto`s; returns the body and the problems met. -/
def simplifySentinel (body : Body) (sentinel : FieldRef) : LogM (Body × List String) := do
  let entries := body.entries
  let (edits, slots, problems) := sentinelScan entries sentinel
  match withCopyEdits entries sentinel edits (slots.mergeSort (· ≤ ·)) with
  | .error problem => pure (body, problems ++ [problem ++ ", leaving the method untouched"])
  | .ok edits =>
    let count := edits.gotos.length
    if count > 0 then
      emit .debug "classpatch::patch::opaque_predicates" s!"Turned {count} sentinel branches into gotos"
    pure ({ body with entries := edits.apply entries }, problems)

end Body

end ClassKit
