/-!
# Decoding names of archive entries

An archive entry's name is UTF-8 when the entry says so (flag bit 11) and code page 437
otherwise. Code page 437 maps every byte to a character: ASCII below 128, and accented letters,
box drawing and mathematical signs above. Malformed UTF-8 is decoded leniently: each maximal
piece of a sequence that could not be completed becomes one replacement character `U+FFFD`.
-/

namespace ClassKit

namespace LegacyText

/-- The characters of the bytes 128 to 255 in code page 437. -/
def cp437High : String :=
  "ÇüéâäàåçêëèïîìÄÅÉæÆôöòûùÿÖÜ¢£¥₧ƒáíóúñÑªº¿⌐¬½¼¡«»░▒▓│┤╡╢╖╕╣║╗╝╜╛┐" ++
  "└┴┬├─┼╞╟╚╔╩╦╠═╬╧╨╤╥╙╘╒╓╫╪┘┌█▄▌▐▀αßΓπΣσµτΦΘΩδ∞φε∩≡±≥≤⌠⌡÷≈°∙·√ⁿ²■\u00A0"

/-- A byte as a code page 437 character. -/
def cp437Char (byte : UInt8) : Char :=
  if byte < 128 then Char.ofNat byte.toNat
  else cp437High.toList.getD (byte.toNat - 128) ' '

/-- Bytes as code page 437 text. -/
def cp437 (bytes : List UInt8) : String := String.ofList (bytes.map cp437Char)

/-- Whether a byte continues a UTF-8 sequence. -/
def isContinuation (byte : UInt8) : Bool := 0x80 ≤ byte && byte ≤ 0xBF

/-- The range the second byte of a sequence must lie in, by its first byte, and the length of
the sequence; none for a byte that cannot start one. -/
def sequenceShape (first : UInt8) : Option (UInt8 × UInt8 × Nat) :=
  if 0xC2 ≤ first && first ≤ 0xDF then some (0x80, 0xBF, 2)
  else if first == 0xE0 then some (0xA0, 0xBF, 3)
  else if 0xE1 ≤ first && first ≤ 0xEC then some (0x80, 0xBF, 3)
  else if first == 0xED then some (0x80, 0x9F, 3)
  else if 0xEE ≤ first && first ≤ 0xEF then some (0x80, 0xBF, 3)
  else if first == 0xF0 then some (0x90, 0xBF, 4)
  else if 0xF1 ≤ first && first ≤ 0xF3 then some (0x80, 0xBF, 4)
  else if first == 0xF4 then some (0x80, 0x8F, 4)
  else none

/-- The number of bytes of a UTF-8 sequence at the start of `bytes` that are well formed so
far: the whole sequence when it is complete. -/
def validPrefix (first : UInt8) (rest : List UInt8) : Nat :=
  match sequenceShape first with
  | none => 1
  | some (low, high, length) =>
    match rest with
    | second :: more =>
      if low ≤ second && second ≤ high then
        2 + ((more.take (length - 2)).takeWhile isContinuation).length
      else 1
    | [] => 1

/-- The code point of a complete sequence. -/
def codePoint (sequence : List UInt8) : Nat :=
  match sequence with
  | [a] => a.toNat
  | [a, b] => (a.toNat % 32) * 64 + b.toNat % 64
  | [a, b, c] => ((a.toNat % 16) * 64 + b.toNat % 64) * 64 + c.toNat % 64
  | [a, b, c, d] => (((a.toNat % 8) * 64 + b.toNat % 64) * 64 + c.toNat % 64) * 64 + d.toNat % 64
  | _ => 0xFFFD

/-- Bytes as UTF-8 text, each malformed piece replaced by `U+FFFD`. -/
def utf8Lossy (bytes : List UInt8) : String :=
  let rec go : Nat → List UInt8 → List Char → List Char
    | 0, _, acc => acc.reverse
    | _ + 1, [], acc => acc.reverse
    | fuel + 1, first :: rest, acc =>
      if first < 0x80 then go fuel rest (Char.ofNat first.toNat :: acc)
      else
        let taken := validPrefix first rest
        let complete := match sequenceShape first with
          | some (_, _, length) => taken == length
          | none => false
        let piece := (first :: rest).take taken
        let char := if complete then Char.ofNat (codePoint piece) else '�'
        go fuel ((first :: rest).drop taken) (char :: acc)
  String.ofList (go (bytes.length + 1) bytes [])

end LegacyText

end ClassKit
