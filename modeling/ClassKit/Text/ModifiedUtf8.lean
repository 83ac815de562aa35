/-!
# Modified UTF-8

Class files store text as *modified UTF-8*: every UTF-16 code unit of the text is written on its
own in the one, two or three byte form of UTF-8. This differs from UTF-8 in two places: the NUL
character takes two bytes (`C0 80`), and a character outside the basic plane becomes its two
surrogates of three bytes each.

Reading accepts overlong forms and joins surrogate pairs; a raw zero byte, a four byte form, a
missing continuation byte and an unpaired surrogate are all rejected.
-/

namespace ClassKit.ModifiedUtf8

/-- The UTF-16 code units of a character. -/
def units (c : Char) : List Nat :=
  if c.toNat < 0x10000 then [c.toNat]
  else
    let offset := c.toNat - 0x10000
    [0xd800 + offset / 0x400, 0xdc00 + offset % 0x400]

/-- The bytes of one UTF-16 code unit. -/
def unitBytes (unit : Nat) : List UInt8 :=
  if 0x01 ≤ unit && unit ≤ 0x7f then [unit.toUInt8]
  else if unit ≤ 0x7ff then [(0xc0 + unit / 0x40).toUInt8, (0x80 + unit % 0x40).toUInt8]
  else
    [(0xe0 + unit / 0x1000).toUInt8, (0x80 + unit / 0x40 % 0x40).toUInt8,
     (0x80 + unit % 0x40).toUInt8]

/-- Encodes a text in modified UTF-8. -/
def encode (text : String) : List UInt8 :=
  text.toList.flatMap fun c => (units c).flatMap unitBytes

/-- Why bytes are not modified UTF-8. -/
inductive DecodeError where
  /-- No valid form starts at this byte offset. -/
  | invalidSequence (offset : Nat)
  /-- A surrogate code unit without its partner. -/
  | loneSurrogate
  deriving DecidableEq, Repr

namespace DecodeError

def message : DecodeError → String
  | invalidSequence offset => s!"invalid sequence at byte {offset}"
  | loneSurrogate => "invalid utf-16: lone surrogate found"

end DecodeError

/-- Whether a byte continues a multi-byte form. -/
def isContinuation (b : UInt8) : Bool := b.toNat / 0x40 == 2

/-- Splits bytes into UTF-16 code units; `offset` is the position of the first byte. -/
def toUnits : List UInt8 → Nat → Except DecodeError (List Nat)
  | [], _ => .ok []
  | b0 :: rest, offset =>
    let lead := b0.toNat
    if lead < 0x80 && lead != 0 then
      (toUnits rest (offset + 1)).map (lead :: ·)
    else if lead / 0x20 == 6 then
      match rest with
      | b1 :: more =>
        if isContinuation b1 then
          (toUnits more (offset + 2)).map (((lead % 0x20) * 0x40 + b1.toNat % 0x40) :: ·)
        else .error (.invalidSequence offset)
      | [] => .error (.invalidSequence offset)
    else if lead / 0x10 == 14 then
      match rest with
      | b1 :: b2 :: more =>
        if isContinuation b1 && isContinuation b2 then
          (toUnits more (offset + 3)).map
            (((lead % 0x10) * 0x1000 + (b1.toNat % 0x40) * 0x40 + b2.toNat % 0x40) :: ·)
        else .error (.invalidSequence offset)
      | _ => .error (.invalidSequence offset)
    else .error (.invalidSequence offset)

/-- Joins UTF-16 code units into characters, pairing surrogates. -/
def ofUnits : List Nat → Except DecodeError (List Char)
  | [] => .ok []
  | unit :: rest =>
    if 0xd800 ≤ unit && unit ≤ 0xdbff then
      match rest with
      | low :: more =>
        if 0xdc00 ≤ low && low ≤ 0xdfff then
          (ofUnits more).map
            (Char.ofNat (0x10000 + (unit - 0xd800) * 0x400 + (low - 0xdc00)) :: ·)
        else .error .loneSurrogate
      | [] => .error .loneSurrogate
    else if 0xdc00 ≤ unit && unit ≤ 0xdfff then .error .loneSurrogate
    else (ofUnits rest).map (Char.ofNat unit :: ·)

/-- Decodes modified UTF-8 bytes into a text. -/
def decode (bytes : List UInt8) : Except DecodeError String := do
  let codeUnits ← toUnits bytes 0
  let chars ← ofUnits codeUnits
  pure (String.ofList chars)

end ClassKit.ModifiedUtf8
