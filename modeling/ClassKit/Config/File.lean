import ClassKit.Config.Schema
import ClassKit.Patch.Settings

/-!
# The configuration file

The configuration file says where the login key lives and, optionally, which field is the
sentinel, which methods are variants of which, how to rename classes, which call the platform
fix replaces, and whether to verify. Everything but the key fields has a default; an unknown
key anywhere is a problem.

Reading the file only checks its shape. Names and descriptors are checked when the file is
turned into `Settings`: key fields first, then the sentinel, the variants (by class name), the
renamings (by old name) and the platform fix.
-/

namespace ClassKit

/-- The sentinel field; each part defaults to that of `client.ob:Z`. -/
structure SentinelConfig where
  owner : String := "client"
  name : String := "ob"
  descriptor : String := "Z"
  deriving DecidableEq, Repr

/-- Where the two halves of the login key are assigned, each as `class.field`. -/
structure KeyFieldsConfig where
  modulus : String
  exponent : String
  deriving DecidableEq, Repr

/-- A method as named in the file. -/
structure MethodConfig where
  name : String
  descriptor : String
  dummyIndex : Option Nat := none
  dummyValue : Option Int := none
  argMapping : Option (List Nat) := none
  deriving DecidableEq, Repr

/-- A method and its variants. -/
structure VariantsConfig where
  name : String
  method : MethodConfig
  variants : List MethodConfig
  deriving DecidableEq, Repr

/-- The call to replace; each part defaults to that of the standard right-click fix. -/
structure PlatformFixConfig where
  method : String := "mousePressed"
  call : String := "isMetaDown"
  callDescriptor : String := "()Z"
  replacementOwner : String := "javax/swing/SwingUtilities"
  replacementName : String := "isRightMouseButton"
  replacementDescriptor : String := "(Ljava/awt/event/MouseEvent;)Z"
  deriving DecidableEq, Repr

/-- The contents of a configuration file; `variants` and `mappings` are sorted by key. -/
structure Config where
  sentinel : SentinelConfig := {}
  keyFields : KeyFieldsConfig
  variants : List (String × List VariantsConfig) := []
  mappings : List (String × String) := []
  platformFix : PlatformFixConfig := {}
  verify : Bool := true
  deriving DecidableEq, Repr

/-! ## Reading -/

namespace JsonM

/-- A required field that was not given. -/
def required {α : Type} (missing : Nat → JsonError) (field : Nat) : Option α → Except JsonError α
  | some value => .ok value
  | none => .error (missing field)

def sentinelShape : RecordShape SentinelConfig SentinelConfig where
  name := "SentinelConfig"
  fields := ["owner", "name", "descriptor"]
  start := {}
  readField
    | 0, draft => do pure { draft with owner := ← readString }
    | 1, draft => do pure { draft with name := ← readString }
    | _, draft => do pure { draft with descriptor := ← readString }
  finish _ draft := .ok draft

def keyFieldsShape : RecordShape (Option String × Option String) KeyFieldsConfig where
  name := "KeyFieldsConfig"
  fields := ["modulus", "exponent"]
  start := (none, none)
  readField
    | 0, (_, exponent) => do pure (some (← readString), exponent)
    | _, (modulus, _) => do pure (modulus, some (← readString))
  finish missing
    | (modulus, exponent) => do
      pure { modulus := ← required missing 0 modulus, exponent := ← required missing 1 exponent }

/-- A dummy value: an integer that fits in 64 bits, or a boolean (`true` is 1). -/
def readDummyValue : JsonM Int := do
  match ← readAnyValue with
  | .unsigned value => if value < Nat.pow 2 63 then pure value else noDummyValue
  | .signed value => pure value
  | .flag value => pure (if value then 1 else 0)
  | .other => noDummyValue
where
  noDummyValue {α : Type} : JsonM α :=
    dataError "data did not match any variant of untagged enum DummyValue"

/-- A method being read: its name and descriptor once given, and the optional parts. -/
structure MethodDraft where
  name : Option String := none
  descriptor : Option String := none
  dummyIndex : Option Nat := none
  dummyValue : Option Int := none
  argMapping : Option (List Nat) := none

def methodShape : RecordShape MethodDraft MethodConfig where
  name := "MethodConfig"
  fields := ["name", "descriptor", "dummy_index", "dummy_value", "arg_mapping"]
  start := {}
  readField
    | 0, draft => do pure { draft with name := some (← readString) }
    | 1, draft => do pure { draft with descriptor := some (← readString) }
    | 2, draft => do pure { draft with dummyIndex := ← readOption readIndex }
    | 3, draft => do pure { draft with dummyValue := ← readOption readDummyValue }
    | _, draft => do pure { draft with argMapping := ← readOption (readSeq readIndex) }
  finish missing draft := do
    pure { name := ← required missing 0 draft.name,
           descriptor := ← required missing 1 draft.descriptor,
           dummyIndex := draft.dummyIndex, dummyValue := draft.dummyValue,
           argMapping := draft.argMapping }

def variantsShape :
    RecordShape (Option String × Option MethodConfig × Option (List MethodConfig)) VariantsConfig where
  name := "VariantsConfig"
  fields := ["name", "method", "variants"]
  start := (none, none, none)
  readField
    | 0, (_, method, variants) => do pure (some (← readString), method, variants)
    | 1, (name, _, variants) => do pure (name, some (← readRecord methodShape), variants)
    | _, (name, method, _) => do pure (name, method, some (← readSeq (readRecord methodShape)))
  finish missing
    | (name, method, variants) => do
      pure { name := ← required missing 0 name, method := ← required missing 1 method,
             variants := ← required missing 2 variants }

def platformFixShape : RecordShape PlatformFixConfig PlatformFixConfig where
  name := "PlatformFixConfig"
  fields := ["method", "call", "call_descriptor", "replacement_owner", "replacement_name",
    "replacement_descriptor"]
  start := {}
  readField
    | 0, draft => do pure { draft with method := ← readString }
    | 1, draft => do pure { draft with call := ← readString }
    | 2, draft => do pure { draft with callDescriptor := ← readString }
    | 3, draft => do pure { draft with replacementOwner := ← readString }
    | 4, draft => do pure { draft with replacementName := ← readString }
    | _, draft => do pure { draft with replacementDescriptor := ← readString }
  finish _ draft := .ok draft

/-- A configuration being read: the key fields once given, and the parts with defaults. -/
structure ConfigDraft where
  sentinel : SentinelConfig := {}
  keyFields : Option KeyFieldsConfig := none
  variants : List (String × List VariantsConfig) := []
  mappings : List (String × String) := []
  platformFix : PlatformFixConfig := {}
  verify : Bool := true

def configShape : RecordShape ConfigDraft Config where
  name := "Config"
  fields := ["sentinel", "key_fields", "variants", "mappings", "platform_fix", "verify"]
  start := {}
  readField
    | 0, draft => do pure { draft with sentinel := ← readRecord sentinelShape }
    | 1, draft => do pure { draft with keyFields := some (← readRecord keyFieldsShape) }
    | 2, draft => do pure { draft with variants := ← readMap (readSeq (readRecord variantsShape)) }
    | 3, draft => do pure { draft with mappings := ← readMap readString }
    | 4, draft => do pure { draft with platformFix := ← readRecord platformFixShape }
    | _, draft => do pure { draft with verify := ← readBool }
  finish missing draft := do
    pure { sentinel := draft.sentinel, keyFields := ← required missing 1 draft.keyFields,
           variants := draft.variants, mappings := draft.mappings,
           platformFix := draft.platformFix, verify := draft.verify }

end JsonM

namespace Config

/-- Reads a configuration from its text; nothing but white space may follow it. -/
def parse (text : String) : Except JsonError Config :=
  let reading : JsonM Config := do
    let config ← JsonM.readRecord JsonM.configShape
    match ← JsonM.skipSpace with
    | some _ => JsonM.failAhead .trailingCharacters
    | none => pure config
  (reading.run.run { bytes := text.toUTF8.data }).1

end Config

/-! ## Settings -/

namespace MethodConfig

/-- The method with a checked name and descriptor. -/
def toInfo (method : MethodConfig) : Except PatchError MethodInfo := do
  let info ← MethodInfo.make method.name method.descriptor
  pure { info with dummyIndex := method.dummyIndex, dummyValue := method.dummyValue,
                   argMapping := method.argMapping }

end MethodConfig

namespace Config

/-- The settings the configuration describes, with the given public key; the first name or
descriptor that does not check is the problem. -/
def toSettings (config : Config) (publicKey : PublicKey) : Except PatchError Settings := do
  let keyFields ← KeyFields.parse config.keyFields.modulus config.keyFields.exponent
  let settings ← Settings.make keyFields publicKey
  let sentinel ← sentinelField config.sentinel.owner config.sentinel.name
    config.sentinel.descriptor
  let settings := { settings with sentinel }
  let settings ← config.variants.foldlM (fun settings (className, tables) => do
    let className ← settingClass className
    let entries ← tables.mapM fun table => do
      pure { name := table.name, method := ← table.method.toInfo,
             variants := ← table.variants.mapM MethodConfig.toInfo : MethodVariants }
    pure (settings.addVariants className entries)) settings
  let settings ← config.mappings.foldlM (fun settings (source, target) =>
    settings.addMapping source target) settings
  let fix := config.platformFix
  let platformFix ← PlatformFix.parse fix.method fix.call fix.callDescriptor fix.replacementOwner
    fix.replacementName fix.replacementDescriptor
  pure { settings with platformFix, verify := config.verify }

end Config

end ClassKit
