import ClassKit.Access
import ClassKit.Text.Decimal
import ClassKit.Text.Quoted
import ClassKit.Pool.Constant
import ClassKit.Code.Label
import ClassKit.Name
import ClassKit.Descriptor.Basic
import ClassKit.Verifier.Types
import ClassKit.Descriptor.Parse
import ClassKit.Error
import ClassKit.Binary.Bytes
import ClassKit.Code.Instruction
import ClassKit.Code.Body
import ClassKit.Class.Basic
import ClassKit.Code.Opcode
import ClassKit.Text.ModifiedUtf8
import ClassKit.Pool.Table
import ClassKit.ClassFile.Basic
import ClassKit.Code.Decode
import ClassKit.Log
import ClassKit.Class.Decode
import ClassKit.Code.Flow
import ClassKit.Pool.Builder
import ClassKit.Code.Encode
import ClassKit.Class.Encode
import ClassKit.Tool.Workspace
import ClassKit.Zip.Crc32
import ClassKit.Zip.Inflate
import ClassKit.Text.Legacy
import ClassKit.Zip.Archive
import ClassKit.Text.Binary64
import ClassKit.Config.Reader
import ClassKit.Patch.Settings
import ClassKit.Tool.Failure
import ClassKit.Key.Der
import ClassKit.Key.Rsa
import ClassKit.Key.Generate
import ClassKit.Tool.Keys
import ClassKit.Verifier.Frame
import ClassKit.Code.Display
import ClassKit.Verifier.Method
import ClassKit.Patch.Shifts
import ClassKit.Patch.Calls
import ClassKit.Patch.DeadStores
import ClassKit.Patch.Sentinel
import ClassKit.Patch.KeyLiterals
import ClassKit.Patch.Forwarders
import ClassKit.Patch.Rename
import ClassKit.Patch.Pipeline
import ClassKit.Tool.Jar
import ClassKit.Config.Schema
import ClassKit.Config.File
import ClassKit.Tool.Run
import ClassKit.Cli.Args
import ClassKit.Cli.LogFilter
import ClassKit.Cli.Program
import ClassKit.Code.EntryList
import ClassKit.Text.Hex
import ClassKit.Code.Syntax
import ClassKit.Main
import ClassKit.Proofs.Outcome
import ClassKit.Proofs.Reading
import ClassKit.Proofs.Labels
import ClassKit.Proofs.DecodedLabels
import ClassKit.Proofs.EncodeFailure
import ClassKit.Proofs.VerifierSoundness
import ClassKit.Proofs.PatchOutput
import ClassKit.Proofs.Renaming
import ClassKit.Proofs.EntryListLinks
import ClassKit.Proofs.EntryListRuns
import ClassKit.Proofs.Utf8RoundTrip
import ClassKit.Proofs.DescriptorRoundTrip
import ClassKit.Proofs.PoolBytes
import ClassKit.Proofs.PoolBuilding
import ClassKit.Proofs.StackEffects
import ClassKit.Proofs.MaxStack
import ClassKit.Proofs.JumpLayout
import ClassKit.Proofs.SentinelRewrite
import ClassKit.Proofs.DeadRuns
import ClassKit.Proofs.StraightVerification
import ClassKit.Proofs.VariantForwarding
import ClassKit.Proofs.DecodedTargets
import ClassKit.Proofs.Utf8Forms
import ClassKit.Proofs.ShiftDistances
import ClassKit.Proofs.LocalSlots
import ClassKit.Proofs.WorklistTermination
import ClassKit.Proofs.KeyLiteralReplacement
