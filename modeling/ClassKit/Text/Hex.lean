/-!
# Hexadecimal text

Bytes are written as two lowercase hex digits each, without separators. Reading ignores
whitespace between digits and accepts either case.
-/

namespace ClassKit.Hex

/-- The value of a hex digit. -/
def digitValue? (c : Char) : Option Nat :=
  if '0' ≤ c && c ≤ '9' then some (c.toNat - '0'.toNat)
  else if 'a' ≤ c && c ≤ 'f' then some (c.toNat - 'a'.toNat + 10)
  else if 'A' ≤ c && c ≤ 'F' then some (c.toNat - 'A'.toNat + 10)
  else none

/-- The lowercase hex digit of a value below 16. -/
def digit (n : Nat) : Char :=
  if n < 10 then Char.ofNat ('0'.toNat + n) else Char.ofNat ('a'.toNat + n - 10)

/-- Two hex digits of a byte. -/
def byteText (b : UInt8) : String :=
  String.ofList [digit (b.toNat / 16), digit (b.toNat % 16)]

/-- Hex text of bytes. -/
def encode (bytes : List UInt8) : String :=
  String.join (bytes.map byteText)

/-- Pairs up hex digits into bytes. -/
def pairUp : List Nat → Option (List UInt8)
  | [] => some []
  | high :: low :: rest => (pairUp rest).map ((high * 16 + low).toUInt8 :: ·)
  | [_] => none

/-- Reads hex text into bytes, skipping whitespace; `none` for a bad digit or an odd count. -/
def decode (text : String) : Option (List UInt8) := do
  let digits ← (text.toList.filter (fun c => !c.isWhitespace)).mapM digitValue?
  pairUp digits

/-- `n` as exactly `width` lowercase hex digits (the low digits if it needs more). -/
def fixed (width n : Nat) : String :=
  String.ofList ((List.range width).reverse.map fun i => digit (n / Nat.pow 16 i % 16))

/-- Reads a hex number of any length. -/
def toNat? (text : String) : Option Nat :=
  if text.isEmpty then none
  else text.toList.foldlM (fun acc c => (digitValue? c).map (acc * 16 + ·)) 0

end ClassKit.Hex
