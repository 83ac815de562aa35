import ClassKit.Zip.Crc32
import ClassKit.Zip.Inflate
import ClassKit.Text.Legacy

/-!
# Zip archives

A JAR is a zip archive. Its entries are listed in the central directory near the end of the
file, found through the end-of-central-directory record (EOCD): the last one whose directory
reads correctly is used. Each listed entry points at a local header, which must be there and lie
before the directory, followed by its data.

Opening an entry checks that it is not encrypted and that its compression method is supported
(stored or deflated); reading its contents then decompresses them and checks the CRC-32
recorded in the central directory. Entries with the same name are one entry: the later one
replaces the earlier, in the earlier one's place.

Writing produces one deflated entry per file, with local headers, a central directory and an
EOCD; two entries may not have the same name.
-/

namespace ClassKit

/-- How the data of an entry is compressed. -/
inductive CompressionMethod where
  | stored
  | deflated
  | other (code : Nat)
  deriving DecidableEq, Repr

namespace CompressionMethod

def ofCode : Nat → CompressionMethod
  | 0 => stored
  | 8 => deflated
  | code => other code

def code : CompressionMethod → Nat
  | stored => 0
  | deflated => 8
  | other code => code

/-- The method's name as archives are described. -/
def name : CompressionMethod → String
  | stored => "Stored"
  | deflated => "Deflated"
  | other 9 => "Deflate64"
  | other 12 => "Bzip2"
  | other 14 => "Lzma"
  | other 93 => "Zstd"
  | other 95 => "Xz"
  | other 99 => "Aes"
  | other code => s!"Unsupported({code})"

end CompressionMethod

/-- Why an archive could not be read or written. -/
inductive ZipError where
  | io (message : String)
  | invalidArchive (message : String)
  | unsupportedArchive (message : String)
  deriving DecidableEq, Repr

namespace ZipError

def message : ZipError → String
  | io _ => "i/o error"
  | invalidArchive message => s!"invalid Zip archive: {message}"
  | unsupportedArchive message => s!"unsupported Zip archive: {message}"

/-- The messages of the errors that caused this one, outermost first: an input or output error
shows only that it is one, and the cause says which. -/
def causes : ZipError → List String
  | io message => [message]
  | _ => []

end ZipError

/-- Why an entry's contents could not be read, once the entry itself was found. -/
inductive EntryReadError where
  | corrupt
  | checksum
  deriving DecidableEq, Repr

namespace EntryReadError

def message : EntryReadError → String
  | corrupt => "corrupt deflate stream"
  | checksum => "Invalid checksum"

end EntryReadError

/-- An entry as the central directory lists it, with where its data starts. -/
structure ZipEntry where
  name : List UInt8
  versionMadeBy : Nat
  flags : Nat
  method : CompressionMethod
  crc : UInt32
  compressedSize : Nat
  size : Nat
  externalAttributes : Nat
  headerStart : Nat
  dataStart : Nat := 0
  deriving DecidableEq, Repr

namespace ZipEntry

/-- The entry's name as text: UTF-8 when flag bit 11 says so, code page 437 otherwise. -/
def nameText (entry : ZipEntry) : String :=
  if entry.flags &&& 0x800 != 0 then LegacyText.utf8Lossy entry.name
  else LegacyText.cp437 entry.name

/-- Whether the name ends with a slash or backslash, which makes the entry a directory. -/
def isDirectory (entry : ZipEntry) : Bool :=
  match entry.name.getLast? with
  | some 47 | some 92 => true
  | _ => false

/-- The Unix file mode, from the external attributes of an entry made on Unix, or derived from
the MS-DOS attributes. -/
def unixMode (entry : ZipEntry) : Option Nat :=
  if entry.externalAttributes == 0 then none
  else
    match entry.versionMadeBy / 256 with
    | 3 => some (entry.externalAttributes / 65536)
    | 0 =>
      let mode := if entry.externalAttributes &&& 0x10 != 0 then 0o40775 else 0o100664
      some (if entry.externalAttributes &&& 1 != 0 then mode &&& 0o555 else mode)
    | _ => none

/-- Whether the entry is a symbolic link. -/
def isSymlink (entry : ZipEntry) : Bool :=
  match entry.unixMode with
  | some mode => mode &&& 0o120000 == 0o120000
  | none => false

/-- Whether the entry is a plain file. -/
def isFile (entry : ZipEntry) : Bool := !entry.isDirectory && !entry.isSymlink

/-- Whether the name ends with `.class`. -/
def isClassFile (entry : ZipEntry) : Bool :=
  entry.name.length ≥ 6 && entry.name.drop (entry.name.length - 6) == ".class".toUTF8.toList

end ZipEntry

/-! ## Little-endian fields -/

/-- The little-endian number in `count` bytes at `offset`, if the bytes are there. -/
def littleEndian (bytes : Array UInt8) (offset count : Nat) : Option Nat :=
  (List.range count).foldr (fun index acc => do
    let byte ← bytes[offset + index]?
    let rest ← acc
    pure (byte.toNat + 256 * rest)) (some 0)

/-- A number as `count` little-endian bytes. -/
def toLittleEndian (value count : Nat) : List UInt8 :=
  (List.range count).map fun index => (value / Nat.pow 256 index % 256).toUInt8

/-- Whether the four bytes at `offset` are `PK` followed by the two given bytes. -/
def hasSignature (bytes : Array UInt8) (offset : Nat) (third fourth : UInt8) : Bool :=
  bytes[offset]? == some 0x50 && bytes[offset + 1]? == some 0x4B &&
    bytes[offset + 2]? == some third && bytes[offset + 3]? == some fourth

/-- The bytes from `start` to `stop`, if the archive holds them all. -/
def slice (bytes : Array UInt8) (start stop : Nat) : Option (List UInt8) :=
  if stop ≤ bytes.size then some ((bytes.extract start stop).toList) else none

/-! ## Extra fields

The extra field of a central directory entry is a list of records: a two-byte kind, a two-byte
length, and data. A ZIP64 record (kind 1) gives 64-bit values for the uncompressed size, the
compressed size and the local header offset, in that order: each one whose 32-bit field is all
ones, or all three when the record is at least 24 bytes long. An extended timestamp (kind
`0x5455`) must have a length that fits its flags; a Unicode path (kind `0x7075`) replaces the name
when its checksum matches the name. A record cut short by the end of the field ends the reading
quietly, keeping what was read; a record that is malformed rejects the entry. Other records are
skipped.
-/

/-- What the extra field can change in an entry. -/
structure ExtraValues where
  size : Nat
  compressedSize : Nat
  headerOffset : Nat
  name : List UInt8
  utf8 : Bool

namespace ExtraValues

/-- Why the reading of extra records stopped. -/
inductive Stop where
  /-- The field ended in the middle of a record: keep what was read. -/
  | cut (values : ExtraValues)
  /-- A record is malformed: the entry is rejected. -/
  | malformed

/-- The next `count` bytes of the field at `position`, as a little-endian number. -/
def number (extra : Array UInt8) (values : ExtraValues) (position count : Nat) :
    Except Stop Nat :=
  match littleEndian extra position count with
  | some value => .ok value
  | none => .error (.cut values)

/-- Reads a ZIP64 record of `length` bytes whose data starts at `position`. -/
def zip64 (extra : Array UInt8) (values : ExtraValues) (position length : Nat) :
    Except Stop (ExtraValues × Nat) := do
  let mut values := values
  let mut at_ := position
  if length ≥ 24 || values.size == 0xFFFFFFFF then
    values := { values with size := ← number extra values at_ 8 }
    at_ := at_ + 8
  if length ≥ 24 || values.compressedSize == 0xFFFFFFFF then
    values := { values with compressedSize := ← number extra values at_ 8 }
    at_ := at_ + 8
  if length ≥ 24 || values.headerOffset == 0xFFFFFFFF then
    values := { values with headerOffset := ← number extra values at_ 8 }
    at_ := at_ + 8
  if at_ - position > length then throw .malformed
  if position + length > extra.size then throw (.cut values)
  pure (values, position + length)

/-- Reads an extended timestamp record of `length` bytes whose data starts at `position`. -/
def timestamp (extra : Array UInt8) (values : ExtraValues) (position length : Nat) :
    Except Stop (ExtraValues × Nat) := do
  let flags ← number extra values position 1
  let times := (List.range 3).filter (fun bit => flags / Nat.pow 2 bit % 2 == 1) |>.length
  if length != 5 && length != 1 + 4 * times then throw .malformed
  if flags &&& 0xF8 != 0 then throw .malformed
  let mut at_ := position + 1
  if flags &&& 1 != 0 || length == 5 then
    discard (number extra values at_ 4)
    at_ := at_ + 4
  for bit in [2, 4] do
    if flags &&& bit != 0 && length > 5 then
      discard (number extra values at_ 4)
      at_ := at_ + 4
  pure (values, at_)

/-- Reads a Unicode path record of `length` bytes whose data starts at `position`. -/
def unicodePath (extra : Array UInt8) (values : ExtraValues) (position length : Nat) :
    Except Stop (ExtraValues × Nat) := do
  discard (number extra values position 1)
  let checksum ← number extra values (position + 1) 4
  if length < 5 then throw .malformed
  let some content := slice extra (position + 5) (position + length) | throw (.cut values)
  if (Crc32.checksum values.name).toNat != checksum then throw .malformed
  if (String.fromUTF8? (ByteArray.mk content.toArray)).isNone then throw .malformed
  pure ({ values with name := content, utf8 := true }, position + length)

/-- Reads every record of an extra field. -/
def read (extra : Array UInt8) : Nat → ExtraValues → Nat → Option ExtraValues
  | 0, values, _ => some values
  | fuel + 1, values, position =>
    if position ≥ extra.size then some values
    else
      let step : Except Stop (ExtraValues × Nat) := do
        let kind ← number extra values position 2
        let length ← number extra values (position + 2) 2
        let start := position + 4
        match kind with
        | 0x0001 => zip64 extra values start length
        | 0x5455 => timestamp extra values start length
        | 0x7075 => unicodePath extra values start length
        | _ =>
          if start + length > extra.size then throw (.cut values)
          pure (values, start + length)
      match step with
      | .ok (values, next) => read extra fuel values next
      | .error (.cut values) => some values
      | .error .malformed => none

end ExtraValues

/-! ## Reading -/

namespace ZipArchive

/-- The end of the central directory as found: where the EOCD is, its disk fields, the number
of entries on this disk, the directory's offset, and how far the archive is shifted in the
file (by data before it). -/
structure DirectoryEnd where
  position : Nat
  diskNumber : Nat
  directoryDisk : Nat
  entriesOnDisk : Nat
  directoryOffset : Nat
  archiveOffset : Nat
  deriving DecidableEq, Repr

/-- The positions of EOCD signatures that end by `limit`, from the last. -/
def eocdCandidates (bytes : Array UInt8) (limit : Nat) : List Nat :=
  ((List.range (limit + 1 - 4)).reverse).filter fun position => hasSignature bytes position 5 6

/-- The first central directory signature at or after `start` and ending by `limit`. -/
def firstDirectoryHeader (bytes : Array UInt8) (start limit : Nat) : Option Nat :=
  ((List.range (limit + 1 - 4 - start)).map (start + ·)).find? fun position =>
    hasSignature bytes position 1 2

/-- Searches backwards from `limit` for an EOCD that makes sense: its record and comment fit in
the file, and either the archive is empty or a central directory header follows the offset it
gives (data before the archive shifts the header forward). The error is that of the last
candidate that did not (the first for a record that does not fit). -/
def findDirectoryEnd (bytes : Array UInt8) (limit : Nat) : Except ZipError DirectoryEnd :=
  let attempt (problem : Option ZipError) (position : Nat) :
      Except DirectoryEnd (Option ZipError) :=
    let field (offset count : Nat) := (littleEndian bytes (position + offset) count).getD 0
    if position + 22 > bytes.size then .ok (problem.orElse fun _ => some (.io "failed to fill whole buffer"))
    else if position + 22 + field 20 2 > bytes.size then
      .ok (problem.orElse fun _ => some (.invalidArchive "EOCD comment exceeds file boundary"))
    else
      let found (archiveOffset : Nat) : DirectoryEnd :=
        { position, diskNumber := field 4 2, directoryDisk := field 6 2,
          entriesOnDisk := field 8 2, directoryOffset := field 16 4, archiveOffset }
      let offset := field 16 4
      if field 10 2 == 0 then .error (found (position - offset))
      else if offset ≥ position then .ok (some (.invalidArchive "Invalid CDFH offset in EOCD"))
      else
        match firstDirectoryHeader bytes offset position with
        | some header => .error (found (header - offset))
        | none => .ok (some (.invalidArchive "No CDFH found"))
  match (eocdCandidates bytes limit).foldlM attempt none with
  | .error found => .ok found
  | .ok problem => .error (problem.getD (.invalidArchive "Could not find EOCD"))

/-- Inserts an entry by name; an entry with the same name is replaced in place. -/
def insertEntry (entries : List ZipEntry) (entry : ZipEntry) : List ZipEntry :=
  if entries.any (·.nameText == entry.nameText) then
    entries.map fun other => if other.nameText == entry.nameText then entry else other
  else entries ++ [entry]

/-- The central directory entry at `position`, and the position after it; none when it is not
a well-formed entry whose local header lies before the directory. -/
def centralEntry (bytes : Array UInt8) (found : DirectoryEnd) (directoryStart position : Nat) :
    Option (ZipEntry × Nat) := do
  if position + 46 > bytes.size || !hasSignature bytes position 1 2 then none
  let field (offset count : Nat) := (littleEndian bytes (position + offset) count).getD 0
  let nameLength := field 28 2
  let extraLength := field 30 2
  let nameStart := position + 46
  let extraStart := nameStart + nameLength
  let next := extraStart + extraLength + field 32 2
  let name ← slice bytes nameStart extraStart
  let extra ← slice bytes extraStart (extraStart + extraLength)
  let flags := field 8 2
  let extraArray := extra.toArray
  let values ← ExtraValues.read extraArray (extraArray.size + 1)
    { size := field 24 4, compressedSize := field 20 4, headerOffset := field 42 4, name,
      utf8 := flags &&& 0x800 != 0 } 0
  if next > bytes.size then none
  let headerStart := values.headerOffset + found.archiveOffset
  if headerStart ≥ directoryStart then none
  if headerStart + 30 > bytes.size || !hasSignature bytes headerStart 3 4 then none
  let localField (offset : Nat) := (littleEndian bytes (headerStart + offset) 2).getD 0
  let dataStart := headerStart + 30 + localField 26 + localField 28
  if dataStart > directoryStart then none
  pure ({ name := values.name, versionMadeBy := field 4 2,
          flags := if values.utf8 then flags ||| 0x800 else flags,
          method := .ofCode (field 10 2), crc := (field 16 4).toUInt32,
          compressedSize := values.compressedSize, size := values.size,
          externalAttributes := field 38 4, headerStart, dataStart }, next)

/-- The entries of the directory an EOCD describes; none when one of them is not well formed. -/
def readDirectory (bytes : Array UInt8) (found : DirectoryEnd) : Option (List ZipEntry) := do
  if found.diskNumber != found.directoryDisk then none
  let directoryStart := found.directoryOffset + found.archiveOffset
  let rec go : Nat → Nat → List ZipEntry → Option (List ZipEntry)
    | 0, _, collected => some collected
    | count + 1, position, collected => do
      let (entry, next) ← centralEntry bytes found directoryStart position
      go count next (insertEntry collected entry)
  go found.entriesOnDisk directoryStart []

/-- The entries of an archive: the directory of the last EOCD whose directory reads; when one
does not, the search goes on before it. -/
def entries (bytes : Array UInt8) : Except ZipError (List ZipEntry) :=
  let rec go : Nat → Nat → Except ZipError (List ZipEntry)
    | 0, _ => .error (.invalidArchive "Could not find EOCD")
    | fuel + 1, limit => do
      let found ← findDirectoryEnd bytes limit
      match readDirectory bytes found with
      | some listed => pure listed
      | none => go fuel found.position
  go (bytes.size + 1) bytes.size

/-- Opens an entry: it must not be encrypted, and its method must be supported. The result is
the compressed data, as much of it as the archive holds. -/
def openEntry (bytes : Array UInt8) (entry : ZipEntry) : Except ZipError (List UInt8) := do
  if entry.flags &&& 1 != 0 then throw (.unsupportedArchive "Password required to decrypt file")
  match entry.method with
  | .stored | .deflated =>
    pure (bytes.extract entry.dataStart (entry.dataStart + entry.compressedSize)).toList
  | .other _ => throw (.unsupportedArchive "Compression method not supported")

/-- The contents of an opened entry: decompressed, with the checksum checked. -/
def contents (entry : ZipEntry) (data : List UInt8) : Except EntryReadError (List UInt8) := do
  let plain ← match entry.method with
    | .deflated => match inflate data with
      | some plain => pure plain
      | none => throw .corrupt
    | _ => pure data
  if Crc32.checksum plain == entry.crc then pure plain else throw .checksum

end ZipArchive

/-! ## Writing -/

/-- An entry to write: its name and contents. -/
structure ZipFileSpec where
  name : String
  contents : List UInt8

namespace ZipArchive

/-- The MS-DOS date of 1 January 1980, the earliest an archive can record. -/
def defaultDate : Nat := 0x21

/-- An entry ready to be written: its name, flags, compressed data, checksum and size. -/
structure PreparedEntry where
  name : List UInt8
  flags : Nat
  data : List UInt8
  crc : UInt32
  size : Nat

namespace PreparedEntry

/-- The fields shared by the local and central headers, from the version needed on. -/
def commonFields (entry : PreparedEntry) : List UInt8 :=
  toLittleEndian 20 2 ++ toLittleEndian entry.flags 2 ++ toLittleEndian 8 2 ++
    toLittleEndian 0 2 ++ toLittleEndian defaultDate 2 ++ toLittleEndian entry.crc.toNat 4 ++
    toLittleEndian entry.data.length 4 ++ toLittleEndian entry.size 4 ++
    toLittleEndian entry.name.length 2 ++ toLittleEndian 0 2

/-- The local header, name included. -/
def localHeader (entry : PreparedEntry) : List UInt8 :=
  [0x50, 0x4B, 3, 4] ++ entry.commonFields ++ entry.name

/-- The central directory record of an entry whose local header is at `offset`: made on Unix,
with mode 644. -/
def centralHeader (entry : PreparedEntry) (offset : Nat) : List UInt8 :=
  [0x50, 0x4B, 1, 2] ++ toLittleEndian 0x314 2 ++ entry.commonFields ++ toLittleEndian 0 2 ++
    toLittleEndian 0 2 ++ toLittleEndian 0 2 ++ toLittleEndian 0x01A40000 4 ++
    toLittleEndian offset 4 ++ entry.name

end PreparedEntry

/-- The files up to the first whose name repeats an earlier one, and the error that stops
there. -/
def accepted (files : List ZipFileSpec) : List ZipFileSpec × Option ZipError :=
  let rec go : List String → List ZipFileSpec → List ZipFileSpec × Option ZipError
    | _, [] => ([], none)
    | seen, file :: rest =>
      if seen.contains file.name then ([], some (.invalidArchive s!"Duplicate filename: {file.name}"))
      else
        let (kept, err) := go (file.name :: seen) rest
        (file :: kept, err)
  go [] files

/-- A deflated archive of the files in order. -/
def build (files : List ZipFileSpec) : List UInt8 :=
  let prepared := files.map fun file =>
    let name := file.name.toUTF8.toList
    { name, flags := if file.name.all (fun c : Char => c.toNat < 128) then 0 else 0x800,
      data := deflateStored file.contents, crc := Crc32.checksum file.contents,
      size := file.contents.length : PreparedEntry }
  let (locals, offsets) := prepared.foldl (fun (acc : List UInt8 × List Nat) entry =>
    (acc.1 ++ entry.localHeader ++ entry.data, acc.2 ++ [acc.1.length])) ([], [])
  let central := (prepared.zip offsets).foldl (fun (out : List UInt8) (entry, offset) =>
    out ++ entry.centralHeader offset) []
  locals ++ central ++ [0x50, 0x4B, 5, 6] ++ toLittleEndian 0 2 ++ toLittleEndian 0 2 ++
    toLittleEndian files.length 2 ++ toLittleEndian files.length 2 ++
    toLittleEndian central.length 4 ++ toLittleEndian locals.length 4 ++ toLittleEndian 0 2

/-- Writes the files in order. A repeated name stops the writing with an error; the archive is
still finished, holding the files before it. -/
def write (files : List ZipFileSpec) : List UInt8 × Option ZipError :=
  let (kept, err) := accepted files
  (build kept, err)

end ZipArchive

end ClassKit
