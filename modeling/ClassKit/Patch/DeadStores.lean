import Std.Data.HashMap
import Std.Data.HashSet
import ClassKit.Code.Body

/-!
# Dead stores

Statements such as `int x = -79 % ((y - -49) / 42);` whose local is never read again are
removed. For every `int` local that no `iload` or `iinc` touches, the last `istore` to it is
followed backwards through the plain `int` arithmetic that produced its value: loads, stores
to other unread locals, `iadd`, `isub`, `idiv`, `irem` and small constants. When at most eight
entries, the store included, consume exactly what they produce, all of them go.

Locals are taken in increasing order; a store already removed with an earlier run is skipped.
-/

namespace ClassKit

namespace Instruction

/-- Whether the instruction may be part of removable `int` arithmetic. -/
def isDeadMath : Instruction → Bool
  | load .int _ | store .int _ | arith .add .int | arith .sub .int | arith .div .int
  | arith .rem .int | bipush _ | iconst _ => true
  | _ => false

end Instruction

namespace DeadStores

/-- The longest run removed at once, the store included. -/
def maxRun : Nat := 8

/-- The position of the nearest entry before `position` that is still there. -/
def previousLive (removed : Array Bool) : Nat → Option Nat
  | 0 => none
  | position + 1 => if removed[position]?.getD false then previousLive removed position else some position

/-- Whether the instruction stores into one of the `loaded` slots. -/
def storesLoaded (loaded : Std.HashSet Nat) : Instruction → Bool
  | .store .int slot => loaded.contains slot.toNat
  | _ => false

/-- Walks back from `position`, collecting the run that produces the values still `needed`;
`room` is how many more entries the run may take. -/
def producingRun (entries : Array Entry) (removed : Array Bool) (loaded : Std.HashSet Nat) :
    Nat → Nat → Nat → List Nat → Option (List Nat)
  | 0, _, _, _ => none
  | room + 1, position, needed, run =>
    match entries[position]? with
    | some (.instruction instruction) =>
      if storesLoaded loaded instruction || !instruction.isDeadMath then none
      else
        let effect := instruction.stackEffect
        if needed < effect.2 then none
        else
          let needed := needed - effect.2 + effect.1
          let run := position :: run
          if needed == 0 then some run
          else match previousLive removed position with
            | some earlier => producingRun entries removed loaded room earlier needed run
            | none => none
    | _ => none

/-- Notes the slot an `iload` or `iinc` reads. -/
def noteRead (loaded : Std.HashSet Nat) : Entry → Std.HashSet Nat
  | .instruction (.load .int slot) | .instruction (.iinc slot _) => loaded.insert slot.toNat
  | _ => loaded

/-- Notes the position of a store to an `int` local; a later store to the slot replaces it. -/
def noteStore (stores : Std.HashMap Nat Nat) : Entry × Nat → Std.HashMap Nat Nat
  | (.instruction (.store .int slot), position) => stores.insert slot.toNat position
  | _ => stores

/-- Marks every position of a run as removed. -/
def markRun (removed : Array Bool) (run : List Nat) : Array Bool :=
  run.foldl (fun removed position => removed.set! position true) removed

/-- Removes the run feeding `last`, the last store to a slot, and counts it, unless the slot is
read, the store went with an earlier run, or no run feeds it. -/
def removeRun (entries : Array Entry) (loaded : Std.HashSet Nat) (state : Array Bool × Nat)
    (last : Nat × Nat) : Array Bool × Nat :=
  if loaded.contains last.1 || state.1[last.2]?.getD false then state
  else match producingRun entries state.1 loaded maxRun last.2 0 [] with
    | some run => (markRun state.1 run, state.2 + 1)
    | none => state

end DeadStores

namespace Body

/-- Removes dead stores and the arithmetic feeding them; returns the body and how many stores
were removed. -/
def removeDeadStores (body : Body) : Body × Nat :=
  let entries := body.entries
  let loaded := entries.foldl DeadStores.noteRead {}
  let lastStores := entries.toList.zipIdx.foldl DeadStores.noteStore {}
  let bySlot := lastStores.toList.mergeSort fun first second => first.1 ≤ second.1
  let (removed, count) :=
    bySlot.foldl (DeadStores.removeRun entries loaded) (Array.replicate entries.size false, 0)
  let kept := (entries.zip removed).filterMap fun (entry, gone) => if gone then none else some entry
  ({ body with entries := kept }, count)

end Body

end ClassKit
