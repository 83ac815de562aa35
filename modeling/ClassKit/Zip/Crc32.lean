/-!
# CRC-32

The checksum of archive entries: the reflected CRC-32 with polynomial `0xEDB88320`, initial
value and final mask all ones.
-/

namespace ClassKit

namespace Crc32

/-- One step of the bitwise division for one bit. -/
def shiftBit (crc : UInt32) : UInt32 :=
  if crc &&& 1 == 1 then (crc >>> 1) ^^^ 0xEDB88320 else crc >>> 1

/-- The table entry of a byte: eight division steps. -/
def entry (byte : Nat) : UInt32 :=
  (List.range 8).foldl (fun crc _ => shiftBit crc) byte.toUInt32

/-- The entries of all 256 bytes. -/
def table : Array UInt32 := (Array.range 256).map entry

/-- Feeds one byte to a running checksum. -/
def update (crc : UInt32) (byte : UInt8) : UInt32 :=
  let index := ((crc ^^^ byte.toUInt32) &&& 0xFF).toNat
  (table.getD index 0) ^^^ (crc >>> 8)

/-- The checksum of some bytes. -/
def checksum (bytes : List UInt8) : UInt32 :=
  (bytes.foldl update 0xFFFFFFFF) ^^^ 0xFFFFFFFF

end Crc32

end ClassKit
