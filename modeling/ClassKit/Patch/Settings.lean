import ClassKit.Code.Instruction
import ClassKit.Descriptor.Parse
import ClassKit.Error

/-!
# Patch settings

What a patch run needs to know about the client it patches: the sentinel field whose branches
are opaque, where the login key lives and what to replace it with, which methods are variants of
which, which mouse call to swap for which, how to rename classes, and whether to verify.

Every name and descriptor in the settings is checked when the settings are built; the first
problem is reported as a `PatchError`.
-/

namespace ClassKit

/-- Why patching could not go on. -/
inductive PatchError where
  /-- A class could not be read, checked or written. -/
  | classError (err : ClassError)
  | missingClass (name : String)
  | missingClassInitializer (name : String)
  | missingKeyField (className field : String)
  | malformedName (problem : String)
  | malformedDescriptor (problem : String)
  | malformedKeyField (location : String)
  | malformedKey (problem : String)

namespace PatchError

def message : PatchError → String
  | classError err => err.message
  | missingClass name => s!"class {name} not found"
  | missingClassInitializer name => s!"class {name} has no static initializer"
  | missingKeyField className field =>
    s!"no literal assigned to {className}.{field} in the static initializer"
  | malformedName problem => s!"malformed name: {problem}"
  | malformedDescriptor problem => s!"malformed descriptor: {problem}"
  | malformedKeyField location => s!"key field '{location}' is not of the form class.field"
  | malformedKey problem => s!"malformed key: {problem}"

/-- The name of the error's kind, as reports give it. -/
def kind : PatchError → String
  | classError err => err.kind
  | missingClass _ => "MissingClass"
  | missingClassInitializer _ => "MissingClassInitializer"
  | missingKeyField .. => "MissingKeyField"
  | malformedName _ => "MalformedName"
  | malformedDescriptor _ => "MalformedDescriptor"
  | malformedKeyField _ => "MalformedKeyField"
  | malformedKey _ => "MalformedKey"

end PatchError

/-! ## Checked pieces -/

/-- A member name of the settings. -/
def settingName (text : String) : Except PatchError UnqualifiedName :=
  (UnqualifiedName.ofString text).mapError .malformedName

/-- A class name of the settings. -/
def settingClass (text : String) : Except PatchError BinaryName :=
  (BinaryName.ofString text).mapError .malformedName

/-- A field type of the settings. -/
def settingFieldType (text : String) : Except PatchError FieldType :=
  (FieldType.parse text).mapError fun err => .malformedDescriptor s!"'{text}': {err.toText}"

/-- A method descriptor of the settings. -/
def settingDescriptor (text : String) : Except PatchError MethodDescriptor :=
  (MethodDescriptor.parse text).mapError fun err => .malformedDescriptor s!"'{text}': {err.toText}"

/-- The sentinel field: a static boolean that is never assigned. -/
def sentinelField (owner name descriptor : String) : Except PatchError FieldRef := do
  pure { owner := ← settingClass owner, name := ← settingName name,
         descriptor := ← settingFieldType descriptor }

/-- A static field named by its class and its name. -/
structure FieldLocation where
  className : BinaryName
  field : UnqualifiedName
  deriving DecidableEq, Repr

namespace FieldLocation

/-- Reads `class.field`, split at the first dot; both sides must be non-empty. -/
def parse (location : String) : Except PatchError FieldLocation :=
  match location.splitOn "." with
  | className :: rest@(_ :: _) =>
    let field := ".".intercalate rest
    if className.isEmpty || field.isEmpty then .error (.malformedKeyField location)
    else do
      pure { className := ← settingClass className, field := ← settingName field }
  | _ => .error (.malformedKeyField location)

end FieldLocation

/-- The fields holding the two halves of the login key. -/
structure KeyFields where
  modulus : FieldLocation
  exponent : FieldLocation
  deriving DecidableEq, Repr

namespace KeyFields

def parse (modulus exponent : String) : Except PatchError KeyFields := do
  pure { modulus := ← FieldLocation.parse modulus, exponent := ← FieldLocation.parse exponent }

end KeyFields

/-- The public key to put into the client, as two decimal numbers. -/
structure PublicKey where
  modulus : String
  exponent : String
  deriving DecidableEq, Repr

namespace PublicKey

/-- Whether a text is a non-empty run of ASCII digits. -/
def isDecimal (digits : String) : Bool := !digits.isEmpty && digits.all Char.isDigit

/-- Checks that both halves are decimal numbers, the modulus first. -/
def make (modulus exponent : String) : Except PatchError PublicKey := do
  for (what, digits) in [("modulus", modulus), ("exponent", exponent)] do
    if !isDecimal digits then throw (.malformedKey s!"{what} '{digits}' is not a decimal number")
  pure { modulus, exponent }

end PublicKey

/-- A method named in the settings, with what is known about its parameters: the position and
value of a dummy parameter, and which variant parameter feeds each original parameter. -/
structure MethodInfo where
  name : UnqualifiedName
  descriptor : MethodDescriptor
  dummyIndex : Option Nat := none
  dummyValue : Option Int := none
  argMapping : Option (List Nat) := none
  deriving DecidableEq, Repr

namespace MethodInfo

/-- A method with a checked name and descriptor. -/
def make (name descriptor : String) : Except PatchError MethodInfo := do
  pure { name := ← settingName name, descriptor := ← settingDescriptor descriptor }

/-- The same method with a dummy parameter at `index` always passed `value`. -/
def withDummy (info : MethodInfo) (index : Nat) (value : Int) : MethodInfo :=
  { info with dummyIndex := some index, dummyValue := some value }

/-- The same method with an argument mapping. -/
def withArgMapping (info : MethodInfo) (mapping : List Nat) : MethodInfo :=
  { info with argMapping := some mapping }

end MethodInfo

/-- A method and the variants that are to forward to it; `name` says what the method does. -/
structure MethodVariants where
  name : String
  method : MethodInfo
  variants : List MethodInfo
  deriving DecidableEq, Repr

/-- A call to replace in one method of each class: inside methods named `method`, virtual and
interface calls to `call` with `callDescriptor` become static calls to `replacement`. -/
structure PlatformFix where
  method : UnqualifiedName
  call : UnqualifiedName
  callDescriptor : MethodDescriptor
  replacement : MethodRef
  deriving DecidableEq, Repr

namespace PlatformFix

/-- Right clicks: `MouseEvent.isMetaDown()` in `mousePressed` becomes
`SwingUtilities.isRightMouseButton(MouseEvent)`. -/
def standard : PlatformFix where
  method := UnqualifiedName.mousePressed
  call := UnqualifiedName.isMetaDown
  callDescriptor := { parameters := [], returnType := some FieldType.boolean }
  replacement :=
    { owner := .object BinaryName.swingUtilities, name := UnqualifiedName.isRightMouseButton,
      descriptor := { parameters := [FieldType.object BinaryName.mouseEvent],
                      returnType := some FieldType.boolean },
      isInterface := false }

/-- A fix from texts, each checked in order. -/
def parse (method call callDescriptor replacementOwner replacementName replacementDescriptor : String) :
    Except PatchError PlatformFix := do
  let method ← settingName method
  let call ← settingName call
  let callDescriptor ← settingDescriptor callDescriptor
  let owner ← settingClass replacementOwner
  let name ← settingName replacementName
  let descriptor ← settingDescriptor replacementDescriptor
  pure { method, call, callDescriptor,
         replacement := { owner := .object owner, name, descriptor, isInterface := false } }

end PlatformFix

/-- Everything a patch run needs. `variants` is kept sorted by class name, and a class name
appears in `mappings` at most once. -/
structure Settings where
  sentinel : FieldRef
  keyFields : KeyFields
  publicKey : PublicKey
  variants : List (BinaryName × List MethodVariants) := []
  platformFix : PlatformFix := PlatformFix.standard
  mappings : List (BinaryName × BinaryName) := []
  verify : Bool := true

/-- Inserts a key into a list sorted by key, replacing an entry with the same key. -/
def insertSorted {β : Type} (key : BinaryName) (value : β) :
    List (BinaryName × β) → List (BinaryName × β)
  | [] => [(key, value)]
  | (other, existing) :: rest =>
    if key.text < other.text then (key, value) :: (other, existing) :: rest
    else if key.text == other.text then (key, value) :: rest
    else (other, existing) :: insertSorted key value rest

namespace Settings

/-- Settings with the standard sentinel `client.ob`, the standard platform fix, no variants and
no renaming, verifying. -/
def make (keyFields : KeyFields) (publicKey : PublicKey) : Except PatchError Settings := do
  pure { sentinel := ← sentinelField "client" "ob" "Z", keyFields, publicKey }

/-- Adds a renaming of one class; both names are checked, and a later renaming of the same class
wins. -/
def addMapping (settings : Settings) (source target : String) : Except PatchError Settings := do
  let source ← settingClass source
  let target ← settingClass target
  pure { settings with mappings := insertSorted source target settings.mappings }

/-- Sets the variants of a class. -/
def addVariants (settings : Settings) (className : BinaryName) (entries : List MethodVariants) :
    Settings :=
  { settings with variants := insertSorted className entries settings.variants }

end Settings

end ClassKit
