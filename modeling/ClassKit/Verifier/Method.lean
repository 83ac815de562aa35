import ClassKit.Verifier.Worklist
import ClassKit.Code.Display
import ClassKit.Class.Basic
import ClassKit.Log

/-!
# Verifying methods

A method body is verified by running the worklist of `ClassKit.Verifier.Worklist` from the entry
frame at the first entry.

Verification fails at the first transfer rule that fails, when execution would run past the
last entry, or when two stacks of different heights meet. The failure names the position and
the entry there, and lists the whole body; it is also logged as an error.
-/

namespace ClassKit

/-- A number right-aligned in five columns. -/
def rightAligned (n : Nat) : String :=
  let digits := toString n
  String.ofList (List.replicate (5 - digits.length) ' ') ++ digits

/-- The body as numbered lines, one per entry. -/
def listing (entries : Array Entry) : String :=
  String.join (entries.toList.zipIdx.map fun (entry, index) =>
    rightAligned index ++ ": " ++ entry.text ++ "\n")

namespace Method

/-- Verifies the body of a method of class `className`; a method without a body passes. -/
def verify (className : BinaryName) (method : Method) : LogExcept ClassError Unit := do
  match method.body with
  | none => pure ()
  | some body =>
    let graph ← liftExcept (FlowGraph.ofBody body)
    let entry := Frame.entry method.isStatic method.descriptor.parameters
      (body.maxLocals method.parameterSlots)
    let size := graph.size
    let start : Verification := ⟨Array.replicate size none, []⟩
    let outcome : Except VerifyStop Unit := match start.flowInto 0 entry with
      | .error fault => .error (VerifyStop.fault 0 fault)
      | .ok state => Verification.run graph method.descriptor.returnType state
    match outcome with
    | .ok () => pure ()
    | .error (.graph err) => throw err
    | .error (.fault index fault) =>
      let text := listing graph.entries
      let descriptor := method.descriptor.render
      emit .error "classpatch::jvm::verifier::method"
        s!"Verification of {className.text}.{method.name.text}{descriptor} failed at {index}: {fault.message}\n{text}"
      let instruction := match graph.entries[index]? with
        | some entry => entry.text.trimAscii.toString
        | none => "<end of code>"
      let failure : VerificationFailure :=
        { className := className.text, method := method.name.text, descriptor, index,
          instruction, fault, listing := text }
      throw (ClassError.verification failure)

end Method

namespace Class

/-- Verifies every method in order, stopping at the first failure. -/
def verify (cls : Class) : LogExcept ClassError Unit :=
  cls.methods.forM (Method.verify cls.name)

end Class

end ClassKit
