import ClassKit.Code.Instruction

/-!
# Method bodies

A method body is a sequence of entries (labels, instructions and branches) and a list of
exception handlers. A handler covers the entries from its `start` label up to, not including,
its `stop` label, and sends an exception of its catch type (any exception when there is none) to
its `target` label.

`Body.maxLocals` is the number of local variable slots the body needs: the larger of the
parameter slots and the highest slot touched by any instruction, reachable or not.
-/

namespace ClassKit

/-- An exception handler of a body, in labels. -/
structure Handler where
  start : Label
  stop : Label
  target : Label
  catchType : Option BinaryName
  deriving DecidableEq, Inhabited, Repr

/-- A method body: its entries in order and its exception handlers. -/
structure Body where
  entries : Array Entry
  handlers : List Handler := []
  deriving Inhabited

namespace Body

/-- Local variable slots needed by the body of a method with `parameterSlots` parameter slots. -/
def maxLocals (body : Body) (parameterSlots : Nat) : Nat :=
  body.entries.foldl (fun most entry =>
    match entry with
    | .instruction instruction =>
      match instruction.localSlot? with
      | some (slot, width) => max most (slot.toNat + width)
      | none => most
    | _ => most) parameterSlots

/-- The body with every handler dropped. -/
def withoutHandlers (body : Body) : Body := { body with handlers := [] }

end Body

end ClassKit
