import ClassKit.Code.Body
import ClassKit.Patch.Settings

/-!
# Replacing calls

The client tells right clicks apart with `MouseEvent.isMetaDown()`, which stopped reporting the
right button on newer runtimes. `SwingUtilities.isRightMouseButton(MouseEvent)` takes the event
as its only argument, so replacing the virtual call by the static one leaves the stack as it
was. Any virtual or interface call with the right name and descriptor is replaced, whatever its
class.
-/

namespace ClassKit

namespace Body

/-- Replaces the calls a fix names; returns the body and how many calls changed. -/
def replaceCalls (body : Body) (fix : PlatformFix) : Body × Nat :=
  let matches? : Entry → Bool
    | .instruction (.invoke .virtual ref) | .instruction (.invoke .interface ref) =>
      ref.name == fix.call && ref.descriptor == fix.callDescriptor
    | _ => false
  let result := body.entries.map fun entry =>
    if matches? entry then Entry.instruction (.invoke .static fix.replacement) else entry
  ({ body with entries := result }, body.entries.countP matches?)

end Body

end ClassKit
