import ClassKit.Class.Decode
import ClassKit.Class.Encode
import ClassKit.Verifier.Method
import ClassKit.Patch.Settings
import ClassKit.Patch.Shifts
import ClassKit.Patch.Calls
import ClassKit.Patch.DeadStores
import ClassKit.Patch.Sentinel
import ClassKit.Patch.KeyLiterals
import ClassKit.Patch.Forwarders
import ClassKit.Patch.Rename

/-!
# Patching a batch of classes

A patch run reads every class, then runs six passes over the whole batch, in order:

1. `ShiftMask` masks constant shift distances,
2. `PlatformFix` replaces the right click check in mouse handlers,
3. `DeadMath` removes arithmetic stored into locals nobody reads,
4. `OpaquePredicates` turns branches on the sentinel field into `goto`s,
5. `KeyReplacement` puts the new login key in place,
6. `MethodVariants` turns method variants into forwarders.

Every class is then verified (unless verification is off), renamed, and written again, in order
of its name as read. Problems a pass can work around become warnings; anything else ends the
run with a `PatchError`.
-/

namespace ClassKit

/-- A problem a pass worked around. -/
structure Warning where
  pass : String
  message : String
  deriving DecidableEq, Repr

/-- The classes of a run by name, in increasing order of name. -/
abbrev ClassMap := List (BinaryName × Class)

/-- A computation of a patch run: collects warnings, may log, may fail. -/
abbrev PatchM := StateT (Array Warning) (LogExcept PatchError)

namespace PatchM

/-- Records a warning and logs it. -/
def warn (pass message : String) : PatchM Unit := do
  emit .warn "classpatch::patch::context" s!"[{pass}] {message}"
  modify (·.push ⟨pass, message⟩)

/-- Runs a computation on classes as part of a patch run. -/
def ofClass {α : Type} (action : LogExcept ClassError α) : PatchM α :=
  fun warnings => ExceptT.adapt PatchError.classError ((·, warnings) <$> action)

/-- Fails the run. -/
def fail {α : Type} (err : PatchError) : PatchM α := fun _ => liftExcept (.error err)

end PatchM

/-- The passes, in the order they run. -/
inductive Pass where
  | shiftMask | platformFix | deadMath | opaquePredicates | keyReplacement | methodVariants
  deriving DecidableEq, Repr

namespace Pass

def all : List Pass :=
  [shiftMask, platformFix, deadMath, opaquePredicates, keyReplacement, methodVariants]

def name : Pass → String
  | shiftMask => "ShiftMask" | platformFix => "PlatformFix" | deadMath => "DeadMath"
  | opaquePredicates => "OpaquePredicates" | keyReplacement => "KeyReplacement"
  | methodVariants => "MethodVariants"

end Pass

namespace ClassMap

/-- Applies a change to every method body of every class. -/
def mapBodies (classes : ClassMap) (change : Class → Method → Body → LogM Body) : LogM ClassMap :=
  classes.mapM fun (name, cls) => do
    let methods ← cls.methods.mapM fun method => do
      match method.body with
      | some body => pure { method with body := some (← change cls method body) }
      | none => pure method
    pure (name, { cls with methods })

/-- The class with a name. -/
def find? (classes : ClassMap) (name : BinaryName) : Option Class := classes.lookup name

/-- The map with the class of a name replaced. -/
def replace (classes : ClassMap) (name : BinaryName) (cls : Class) : ClassMap :=
  classes.map fun (other, existing) => if other == name then (other, cls) else (other, existing)

end ClassMap

namespace Passes

def shiftMask (classes : ClassMap) : LogM ClassMap :=
  classes.mapM fun (name, cls) => do
    let (methods, masked) := cls.methods.foldl (fun (methods, masked) method =>
      match method.body with
      | some body =>
        let (body, count) := body.maskShifts
        (methods ++ [{ method with body := some body }], masked + count)
      | none => (methods ++ [method], masked)) (([] : List Method), 0)
    if masked > 0 then
      emit .debug "classpatch::patch::shift_mask" s!"Masked {masked} shift distances in {cls.name.text}"
    pure (name, { cls with methods })

def platformFix (fix : PlatformFix) (classes : ClassMap) : PatchM ClassMap := do
  let (classes, patched) ← classes.foldlM (fun (classes, patched) (name, cls) => do
    let (methods, replaced) := cls.methods.foldl (fun (methods, replaced) method =>
      match replaced, method.body with
      | none, some body =>
        if method.name == fix.method then
          let (body, count) := body.replaceCalls fix
          (methods ++ [{ method with body := some body }], some count)
        else (methods ++ [method], none)
      | none, none => (methods ++ [method], if method.name == fix.method then some 0 else none)
      | some count, _ => (methods ++ [method], some count)) (([] : List Method), none)
    let replaced := replaced.getD 0
    if replaced > 0 then
      emit .info "classpatch::patch::platform_fix"
        s!"Replaced {replaced} calls to {fix.call.text} in {cls.name.text}"
    pure (classes ++ [(name, { cls with methods })], if replaced > 0 then patched + 1 else patched))
    (([] : ClassMap), 0)
  if patched == 0 then
    PatchM.warn "PlatformFix" s!"no {fix.method.text} method calling {fix.call.text} was found"
  pure classes

def deadMath (classes : ClassMap) : LogM ClassMap :=
  classes.mapBodies fun cls method body => do
    let (body, removed) := body.removeDeadStores
    if removed > 0 then
      emit .debug "classpatch::patch::dead_math"
        s!"Removed {removed} dead stores from {cls.name.text}.{method.name.text}"
    pure body

def opaquePredicates (sentinel : FieldRef) (classes : ClassMap) : PatchM ClassMap :=
  classes.mapM fun (name, cls) => do
    let methods ← cls.methods.mapM fun method => do
      match method.body with
      | some body =>
        let (body, problems) ← (body.simplifySentinel sentinel : LogM _)
        for problem in problems do
          PatchM.warn "OpaquePredicates"
            s!"{problem} in {cls.name.text}.{method.name.text}{method.descriptor.render}"
        pure { method with body := some body }
      | none => pure method
    pure (name, { cls with methods })

def keyReplacement (settings : Settings) (classes : ClassMap) : PatchM ClassMap := do
  let targets := [(settings.keyFields.modulus, settings.publicKey.modulus),
    (settings.keyFields.exponent, settings.publicKey.exponent)]
  targets.foldlM (fun classes (location, value) => do
    let owner := location.className.text
    let some cls := classes.find? location.className
      | PatchM.fail (.missingClass owner)
    let initializer := cls.methods.find? (·.name == UnqualifiedName.clinit)
    let some body := initializer.bind (·.body)
      | PatchM.fail (.missingClassInitializer owner)
    let (body, replaced) := body.replaceKeyLiteral location value
    if replaced == 0 then PatchM.fail (.missingKeyField owner location.field.text)
    emit .info "classpatch::patch::key_replacement"
      s!"Replaced {replaced} literal(s) initializing {owner}.{location.field.text}"
    let (methods, _) := cls.methods.foldl (fun (methods, done) method =>
      if !done && method.name == UnqualifiedName.clinit then
        (methods ++ [{ method with body := some body }], true)
      else (methods ++ [method], done)) (([] : List Method), false)
    pure (classes.replace location.className { cls with methods })) classes

def methodVariants (variants : List (BinaryName × List MethodVariants)) (classes : ClassMap) :
    PatchM ClassMap :=
  variants.foldlM (fun classes (className, entries) => do
    match classes.find? className with
    | none =>
      PatchM.warn "MethodVariants" s!"no class {className.text} to map variants in"
      pure classes
    | some cls =>
      let cls ← entries.foldlM (fun cls entry =>
        entry.variants.foldlM (fun cls variant => do
          match cls.forwardVariant entry.method variant with
          | .ok forwarded =>
            emit .debug "classpatch::patch::method_variants"
              s!"Forwarded {cls.name.text}.{variant.name.text}{variant.descriptor.render} to {entry.method.name.text} ({entry.name})"
            pure forwarded
          | .error problem =>
            PatchM.warn "MethodVariants" problem
            pure cls) cls) cls
      pure (classes.replace className cls)) classes

end Passes

namespace Pass

/-- Runs a pass over the classes. -/
def run (settings : Settings) (classes : ClassMap) : Pass → PatchM ClassMap
  | shiftMask => (Passes.shiftMask classes : LogM _)
  | platformFix => Passes.platformFix settings.platformFix classes
  | deadMath => (Passes.deadMath classes : LogM _)
  | opaquePredicates => Passes.opaquePredicates settings.sentinel classes
  | keyReplacement => Passes.keyReplacement settings classes
  | methodVariants => Passes.methodVariants settings.variants classes

end Pass

/-- A class as written by a patch run, under its new name. -/
structure PatchedClass where
  name : BinaryName
  bytes : List UInt8

namespace PatchedClass

/-- The name of its archive entry. -/
def entryName (patched : PatchedClass) : String := patched.name.text ++ ".class"

end PatchedClass

/-- Reads a class into the map; a class with the name of one already there replaces it. -/
def loadClass (classes : ClassMap) (bytes : List UInt8) : PatchM ClassMap := do
  let cls ← PatchM.ofClass (Class.decode bytes)
  if (classes.find? cls.name).isSome then
    PatchM.warn "Load" s!"duplicate class {cls.name.text}, keeping the last one"
  pure (insertSorted cls.name cls classes)

/-- Reads the classes; a later class with the name of an earlier one replaces it. -/
def loadClasses (classFiles : List (List UInt8)) : PatchM ClassMap :=
  classFiles.foldlM loadClass []

/-- Verifies (if asked), renames and writes a class. -/
def finishClass (settings : Settings) (cls : Class) : PatchM PatchedClass := do
  if settings.verify then PatchM.ofClass cls.verify
  let renamed := cls.rename (renameBy settings.mappings)
  let bytes ← PatchM.ofClass renamed.encode
  pure { name := renamed.name, bytes }

/-- Verifies (if asked), renames and writes each class in order. -/
def finishClasses (settings : Settings) (classes : ClassMap) : PatchM (List PatchedClass) :=
  classes.mapM fun (_, cls) => finishClass settings cls

/-- Patches a batch of class files: the patched classes and the warnings. -/
def patch (settings : Settings) (classFiles : List (List UInt8)) :
    LogExcept PatchError (List PatchedClass × List Warning) := do
  let run : PatchM (List PatchedClass) := do
    let classes ← loadClasses classFiles
    emit .info "classpatch::patch::pipeline" s!"Loaded {classes.length} classes"
    let classes ← Pass.all.foldlM (fun classes pass => do
      emit .debug "classpatch::patch::pipeline" s!"Running pass {pass.name}"
      pass.run settings classes) classes
    let patched ← finishClasses settings classes
    let warnings ← get
    emit .info "classpatch::patch::pipeline"
      s!"Patched {patched.length} classes with {warnings.size} warning(s)"
    pure patched
  let (patched, warnings) ← run.run #[]
  pure (patched, warnings.toList)

end ClassKit
