/-!
# Reading DER

Key files are DER: each value is a tag byte, a length and that many content bytes. A
constructed value such as a SEQUENCE holds further values in its contents, and is read with a
window over exactly those bytes: reading past the window is an error, and so is leaving bytes in
it.

Problems carry a byte position when one is known. A problem raised by a read is placed at the
absolute position of the reader. A problem in a value read as an element of a constructed value
has the position within the enclosing window added to it, so the positions of nested problems
are relative to the windows they were found in, as the reader reports them.
-/

namespace ClassKit

/-- A DER tag. -/
inductive DerTag where
  | boolean
  | integer
  | bitString
  | octetString
  | null
  | objectIdentifier
  | real
  | enumerated
  | utf8String
  | set
  | numericString
  | printableString
  | teletexString
  | videotexString
  | ia5String
  | utcTime
  | generalizedTime
  | visibleString
  | bmpString
  | sequence
  | application (constructed : Bool) (number : Nat)
  | contextSpecific (constructed : Bool) (number : Nat)
  | privateUse (constructed : Bool) (number : Nat)
  deriving DecidableEq, Repr

namespace DerTag

def name : DerTag → String
  | boolean => "BOOLEAN"
  | integer => "INTEGER"
  | bitString => "BIT STRING"
  | octetString => "OCTET STRING"
  | null => "NULL"
  | objectIdentifier => "OBJECT IDENTIFIER"
  | real => "REAL"
  | enumerated => "ENUMERATED"
  | utf8String => "UTF8String"
  | set => "SET"
  | numericString => "NumericString"
  | printableString => "PrintableString"
  | teletexString => "TeletexString"
  | videotexString => "VideotexString"
  | ia5String => "IA5String"
  | utcTime => "UTCTime"
  | generalizedTime => "GeneralizedTime"
  | visibleString => "VisibleString"
  | bmpString => "BMPString"
  | sequence => "SEQUENCE"
  | application constructed number => s!"APPLICATION [{number}] ({kind constructed})"
  | contextSpecific constructed number => s!"CONTEXT-SPECIFIC [{number}] ({kind constructed})"
  | privateUse constructed number => s!"PRIVATE [{number}] ({kind constructed})"
where
  kind (constructed : Bool) : String := if constructed then "constructed" else "primitive"

/-- Whether values with this tag hold further values. -/
def isConstructed : DerTag → Bool
  | sequence | set => true
  | application constructed _ | contextSpecific constructed _ | privateUse constructed _ =>
    constructed
  | _ => false

end DerTag

/-- What went wrong reading DER. -/
inductive DerProblem where
  | failed
  | incomplete (expected actual : Nat)
  | indefiniteLength
  | length (tag : DerTag)
  | noncanonical (tag : DerTag)
  | oidMalformed
  | overflow
  | overlength
  | tagNumberInvalid
  | tagUnexpected (expected : Option DerTag) (actual : DerTag)
  | tagUnknown (byte : UInt8)
  | trailingData (decoded remaining : Nat)
  | value (tag : DerTag)
  deriving DecidableEq, Repr

namespace DerProblem

/-- A byte as two lowercase hexadecimal digits. -/
def hexByte (byte : UInt8) : String :=
  let digit (n : Nat) : Char := "0123456789abcdef".toList.getD n '0'
  String.ofList [digit (byte.toNat / 16), digit (byte.toNat % 16)]

def message : DerProblem → String
  | failed => "operation failed"
  | incomplete expected actual =>
    s!"ASN.1 DER message is incomplete: expected {expected}, actual {actual}"
  | indefiniteLength => "indefinite length disallowed"
  | length tag => s!"incorrect length for {tag.name}"
  | noncanonical tag => s!"ASN.1 {tag.name} not canonically encoded as DER"
  | oidMalformed => "malformed OID"
  | overflow => "integer overflow"
  | overlength => "ASN.1 DER message is too long"
  | tagNumberInvalid => "invalid tag number"
  | tagUnexpected expected actual =>
    let wanted := match expected with
      | some tag => s!"expected {tag.name}, "
      | none => ""
    s!"unexpected ASN.1 DER tag: {wanted}got {actual.name}"
  | tagUnknown byte => s!"unknown/unsupported ASN.1 DER tag: 0x{hexByte byte}"
  | trailingData decoded remaining =>
    s!"trailing data at end of DER message: decoded {decoded} bytes, {remaining} bytes remaining"
  | value tag => s!"malformed ASN.1 DER value for {tag.name}"

end DerProblem

/-- A DER problem and, when known, its byte position. -/
structure DerError where
  problem : DerProblem
  position : Option Nat := none
  deriving DecidableEq, Repr

namespace DerError

def text (err : DerError) : String :=
  match err.position with
  | some position => s!"{err.problem.message} at DER byte {position}"
  | none => err.problem.message

/-- The error of a value read inside a window, as seen from the window: the position within
the window is added. -/
def nested (err : DerError) (position : Nat) : DerError :=
  { err with position := some (position + err.position.getD 0) }

end DerError

/-- The bytes being read, the absolute position, and the open windows (start and length,
innermost first). -/
structure DerCursor where
  bytes : Array UInt8
  position : Nat := 0
  windows : List (Nat × Nat) := []

/-- A computation reading DER. -/
abbrev DerM := ExceptT DerError (StateM DerCursor)

/-- A value's tag and the length of its contents. -/
structure DerHeader where
  tag : DerTag
  length : Nat

namespace DerM

/-- Fails with a problem that has no position yet. -/
def raise {α : Type} (problem : DerProblem) : DerM α := throw { problem }

/-- Fails with a problem at the absolute position. -/
def raiseHere {α : Type} (problem : DerProblem) : DerM α := do
  throw { problem, position := some (← get).position }

/-- The position within the innermost window. -/
def position : DerM Nat := do
  let cursor ← get
  match cursor.windows with
  | (start, _) :: _ => pure (cursor.position - start)
  | [] => pure cursor.position

/-- The bytes left in the innermost window. -/
def remaining : DerM Nat := do
  let cursor ← get
  match cursor.windows with
  | (start, length) :: _ => pure (start + length - cursor.position)
  | [] => pure (cursor.bytes.size - cursor.position)

/-- Whether the innermost window is used up. -/
def isFinished : DerM Bool := do pure ((← remaining) == 0)

/-- Reads `length` bytes. -/
def readSlice (length : Nat) : DerM (List UInt8) := do
  let cursor ← get
  let left ← remaining
  if length ≤ left then
    set { cursor with position := cursor.position + length }
    pure ((cursor.bytes.toList.drop cursor.position).take length)
  else
    match cursor.windows with
    | _ :: _ =>
      raiseHere (.incomplete (cursor.position + length) (cursor.position + left))
    | [] => raiseHere (.incomplete (cursor.position + length) cursor.bytes.size)

def readByte : DerM UInt8 := do
  match ← readSlice 1 with
  | byte :: _ => pure byte
  | [] => raiseHere (.incomplete 1 0)

/-- The next byte of the innermost window, if any. -/
def peekByte : DerM (Option UInt8) := do
  if ← isFinished then pure none
  else
    let cursor ← get
    pure cursor.bytes[cursor.position]?

/-- Reads a value as an element of the enclosing window: a failure gets the position within
the window added. -/
def element {α : Type} (action : DerM α) : DerM α :=
  tryCatch action fun err => do throw (err.nested (← position))

/-- Closes the innermost window. -/
def closeWindow : DerM Unit :=
  modify fun cursor => { cursor with windows := cursor.windows.drop 1 }

/-- Reads the next `length` bytes as a window with `body`, which must use them all. -/
def nestedIn {α : Type} (length : Nat) (body : DerM α) : DerM α := do
  let left ← remaining
  let cursor ← get
  if length > left then
    raiseHere (.incomplete (cursor.position + length) (cursor.position + left))
  else
    set { cursor with windows := (cursor.position, length) :: cursor.windows }
    let value ← tryCatch body fun err => do
      closeWindow
      throw err
    let here ← position
    if here < length then
      closeWindow
      throw { problem := .trailingData here (length - here), position := some here }
    closeWindow
    pure value

/-- Every byte must have been read. -/
def finish : DerM Unit := do
  let cursor ← get
  if cursor.position < cursor.bytes.size then
    raiseHere (.trailingData cursor.position (cursor.bytes.size - cursor.position))

/-! ## Headers -/

/-- The tag a byte stands for. -/
def tagOfByte (byte : UInt8) : DerM DerTag := do
  let number := (byte &&& 0x1F).toNat
  let constructed := byte &&& 0x20 != 0
  if number > 30 then raise .tagNumberInvalid
  else
    match byte with
    | 0x01 => pure .boolean
    | 0x02 => pure .integer
    | 0x03 => pure .bitString
    | 0x04 => pure .octetString
    | 0x05 => pure .null
    | 0x06 => pure .objectIdentifier
    | 0x09 => pure .real
    | 0x0A => pure .enumerated
    | 0x0C => pure .utf8String
    | 0x12 => pure .numericString
    | 0x13 => pure .printableString
    | 0x14 => pure .teletexString
    | 0x15 => pure .videotexString
    | 0x16 => pure .ia5String
    | 0x17 => pure .utcTime
    | 0x18 => pure .generalizedTime
    | 0x1A => pure .visibleString
    | 0x1E => pure .bmpString
    | 0x30 => pure .sequence
    | 0x31 => pure .set
    | _ =>
      if 0x40 ≤ byte && byte ≤ 0x7E then pure (.application constructed number)
      else if 0x80 ≤ byte && byte ≤ 0xBE then pure (.contextSpecific constructed number)
      else if 0xC0 ≤ byte && byte ≤ 0xFE then pure (.privateUse constructed number)
      else raise (.tagUnknown byte)

/-- The first byte of the shortest long-form encoding of a length. -/
def lengthPrefix (length : Nat) : Option Nat :=
  if length < 0x80 then none
  else if length < 0x100 then some 0x81
  else if length < 0x10000 then some 0x82
  else if length < 0x1000000 then some 0x83
  else some 0x84

/-- A length: one byte below `0x80`, or `0x81` to `0x84` followed by that many bytes, in the
shortest form, at most `0x0FFFFFFF`. -/
def readLength : DerM Nat := do
  let first ← readByte
  if first < 0x80 then pure first.toNat
  else if first == 0x80 then raise .indefiniteLength
  else if first ≤ 0x84 then
    let count := first.toNat - 0x80
    let mut length := 0
    for _ in List.range count do
      length := length * 256 + (← readByte).toNat
    if length > 0x0FFFFFFF then raise .overflow
    else if lengthPrefix length == some first.toNat then pure length
    else raise .overlength
  else raise .overlength

/-- A tag and a length; a length not in shortest form is reported against the tag. -/
def readHeader : DerM DerHeader := do
  let tag ← tagOfByte (← readByte)
  let length ← tryCatch readLength fun err =>
    if err.problem == .overlength then raise (.length tag) else throw err
  pure { tag, length }

/-- A value that must have the given tag; `body` reads its contents of the given length. -/
def tagged {α : Type} (expected : DerTag) (body : DerHeader → DerM α) : DerM α := do
  let header ← readHeader
  if header.tag != expected then raise (.tagUnexpected (some expected) header.tag)
  else body header

/-- A SEQUENCE whose contents `body` reads. -/
def sequenceOf {α : Type} (body : DerM α) : DerM α :=
  tagged .sequence fun header => nestedIn header.length body

/-! ## Values -/

/-- The magnitude bytes of a non-negative INTEGER in shortest form: one leading zero only
before a byte with its top bit set, and no top bit set on the first byte otherwise. -/
def unsignedBytes : List UInt8 → DerM (List UInt8)
  | [] => raise (.noncanonical .integer)
  | [0] => pure [0]
  | 0 :: rest@(next :: _) =>
    if next < 0x80 then raise (.noncanonical .integer) else pure rest
  | bytes@(first :: _) =>
    if first ≥ 0x80 then raise (.value .integer) else pure bytes

/-- The value of big-endian bytes. -/
def natOfBytes (bytes : List UInt8) : Nat :=
  bytes.foldl (fun acc byte => acc * 256 + byte.toNat) 0

/-- A non-negative INTEGER of any size. -/
def unsigned : DerM Nat :=
  tagged .integer fun header => do
    natOfBytes <$> unsignedBytes (← readSlice header.length)

/-- A non-negative INTEGER below 256. -/
def smallUnsigned : DerM Nat :=
  tagged .integer fun header => do
    if header.length > 2 then raise (.noncanonical .integer)
    else
      let bytes ← unsignedBytes (← readSlice header.length)
      if bytes.length > 1 then raise (.length .integer) else pure (natOfBytes bytes)

/-- The contents of a BIT STRING after its header: the count of unused bits and the bytes. -/
def bitStringContents (header : DerHeader) : DerM (Nat × List UInt8) := do
  if header.length = 0 then raise .overflow
  else
    let unused ← readByte
    let bytes ← readSlice (header.length - 1)
    if unused > 7 || (unused != 0 && bytes.isEmpty) then raise (.value .bitString)
    else pure (unused.toNat, bytes)

def bitString : DerM (Nat × List UInt8) := tagged .bitString bitStringContents

def octetString : DerM (List UInt8) :=
  tagged .octetString fun header => readSlice header.length

/-- Whether bytes are a well-formed object identifier: at least three bytes, a first byte
below 120, and the other arcs in base 128 of at most 32 bits. -/
def validOid (bytes : List UInt8) : Bool :=
  match bytes with
  | first :: rest@(_ :: _ :: _) =>
    first < 120 && arcsValid rest 0
  | _ => false
where
  arcsValid : List UInt8 → Nat → Bool
    | [], count => count == 0
    | byte :: rest, count =>
      if count + 1 > 4 && byte &&& 0xF0 != 0 then false
      else if byte &&& 0x80 == 0 then arcsValid rest 0
      else arcsValid rest (count + 1)

/-- An OBJECT IDENTIFIER, as its content bytes. -/
def objectIdentifier : DerM (List UInt8) :=
  tagged .objectIdentifier fun header => do
    if header.length > 39 then raise (.length .objectIdentifier)
    else
      let bytes ← readSlice header.length
      if validOid bytes then pure bytes else raise .oidMalformed

/-- A value of any tag, with its content bytes. -/
def anyValue : DerM (DerTag × List UInt8) := do
  let header ← readHeader
  pure (header.tag, ← readSlice header.length)

/-- A value of any tag if the window has one left. -/
def optionalAny : DerM (Option (DerTag × List UInt8)) := do
  match ← peekByte with
  | some byte =>
    discard (tagOfByte byte)
    some <$> anyValue
  | none => pure none

end DerM

end ClassKit
