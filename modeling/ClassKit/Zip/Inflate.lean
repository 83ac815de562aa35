/-!
# Inflating

Archive entries are compressed with DEFLATE: a sequence of blocks, each stored as is or coded
with a fixed or a dynamic pair of Huffman codes for literals and lengths and for distances.
Bits are read from the least significant bit of each byte; Huffman codes are read from their
most significant bit.

Decoding stops at the end of the last block; what follows is ignored. Input that ends before
the last block does, or that is not DEFLATE (an unknown block type, a length that does not match
its complement, code lengths that do not make a complete code, a code no symbol has), is
corrupt. A distance reaching before the first byte reads zeros from the initial window.
-/

namespace ClassKit

/-- The state of decoding: the input, the position in bits, and the output so far. -/
structure Inflater where
  input : Array UInt8
  bit : Nat := 0
  output : Array UInt8 := #[]

/-- Why decoding stopped early. -/
inductive InflateStop where
  | corrupt
  | truncated
  deriving DecidableEq, Repr

/-- A decoding computation; a stop keeps the output decoded so far. -/
abbrev InflateM := ExceptT InflateStop (StateM Inflater)

/-- A canonical Huffman code: how many symbols have each code length (0 to 15), and the symbols
in order of code length, then of symbol. -/
structure Huffman where
  counts : Array Nat
  symbols : Array Nat

namespace Huffman

/-- The code for the given code lengths of symbols `0, 1, …`, or none when the lengths do not
make a complete code (Kraft sum exactly 1) and more than one symbol has a code. -/
def build (lengths : List Nat) : Option Huffman :=
  let counts := lengths.foldl (fun counts length =>
    counts.modify length (· + 1)) (Array.replicate 16 (0 : Nat))
  let used := (List.range 15).foldl (fun used length => used + counts.getD (length + 1) 0) 0
  let total := (List.range 15).foldl (fun total length =>
    (total + counts.getD (length + 1) 0) * 2) 0
  let symbols := (List.range 15).foldl (fun symbols length =>
    lengths.zipIdx.foldl (fun symbols (codeLength, symbol) =>
      if codeLength == length + 1 then symbols.push symbol else symbols) symbols) #[]
  if total != 65536 && used > 1 then none else some { counts, symbols }

/-- The fixed code for literals and lengths. -/
def fixedLiterals : Huffman :=
  (build ((List.replicate 144 8) ++ (List.replicate 112 9) ++ (List.replicate 24 7) ++
    (List.replicate 8 8))).getD ⟨#[], #[]⟩

/-- The fixed code for distances: 32 codes of five bits, of which the last two stand for no
distance. -/
def fixedDistances : Huffman := (build (List.replicate 32 5)).getD ⟨#[], #[]⟩

end Huffman

namespace Inflate

/-- The base length of each length symbol from 257. -/
def lengthBase : Array Nat :=
  #[3, 4, 5, 6, 7, 8, 9, 10, 11, 13, 15, 17, 19, 23, 27, 31, 35, 43, 51, 59, 67, 83, 99, 115,
    131, 163, 195, 227, 258]

/-- The number of extra bits of each length symbol from 257. -/
def lengthExtra : Array Nat :=
  #[0, 0, 0, 0, 0, 0, 0, 0, 1, 1, 1, 1, 2, 2, 2, 2, 3, 3, 3, 3, 4, 4, 4, 4, 5, 5, 5, 5, 0]

/-- The base distance of each distance symbol. -/
def distanceBase : Array Nat :=
  #[1, 2, 3, 4, 5, 7, 9, 13, 17, 25, 33, 49, 65, 97, 129, 193, 257, 385, 513, 769, 1025, 1537,
    2049, 3073, 4097, 6145, 8193, 12289, 16385, 24577]

/-- The number of extra bits of each distance symbol. -/
def distanceExtra : Array Nat :=
  #[0, 0, 0, 0, 1, 1, 2, 2, 3, 3, 4, 4, 5, 5, 6, 6, 7, 7, 8, 8, 9, 9, 10, 10, 11, 11, 12, 12, 13,
    13]

/-- The order in which the code lengths of the code-length code are given. -/
def codeLengthOrder : List Nat :=
  [16, 17, 18, 0, 8, 7, 9, 6, 10, 5, 11, 4, 12, 3, 13, 2, 14, 1, 15]

/-- One bit of input. -/
def bit : InflateM Nat := do
  let state ← get
  match state.input[state.bit / 8]? with
  | none => throw .truncated
  | some byte =>
    set { state with bit := state.bit + 1 }
    pure ((byte.toNat >>> (state.bit % 8)) % 2)

/-- `count` bits of input, the first one least significant. -/
def bits (count : Nat) : InflateM Nat := do
  let mut value := 0
  for index in List.range count do
    value := value + (← bit) * Nat.pow 2 index
  pure value

/-- Appends a byte to the output. -/
def emit (byte : UInt8) : InflateM Unit :=
  modify fun state => { state with output := state.output.push byte }

/-- The next symbol of a code, reading its bits most significant first. -/
def symbol (code : Huffman) : InflateM Nat := do
  let rec walk : Nat → Nat → Nat → Nat → Nat → InflateM Nat
    | 0, _, _, _, _ => throw .corrupt
    | fuel + 1, length, value, first, index => do
      let value := value + (← bit)
      let count := code.counts.getD length 0
      if value < first + count then
        match code.symbols[index + (value - first)]? with
        | some found => pure found
        | none => throw .corrupt
      else walk fuel (length + 1) ((value) * 2) ((first + count) * 2) (index + count)
  walk 15 1 0 0 0

/-- A block stored as is: after the bits up to the next byte, its length and the length's
complement, then the bytes. -/
def stored : InflateM Unit := do
  modify fun state => { state with bit := (state.bit + 7) / 8 * 8 }
  let length ← bits 16
  let complement ← bits 16
  if length != 0xFFFF - complement then throw .corrupt
  let state ← get
  let start := state.bit / 8
  let available := (state.input.toList.drop start).take length
  set { state with bit := state.bit + 8 * available.length,
                   output := state.output ++ available.toArray }
  if available.length < length then throw .truncated

/-- Copies `length` bytes from `distance` bytes back in the output, one at a time, so that the
copy may overlap what it produces. The window starts out as zeros, so a distance reaching before
the first byte reads zeros. -/
def copyBack (distance length : Nat) : InflateM Unit := do
  for _ in List.range length do
    let state ← get
    if distance > state.output.size then emit 0
    else emit (state.output.getD (state.output.size - distance) 0)

/-- The symbols of a Huffman-coded block, up to its end symbol. -/
def codes (literals distances : Huffman) : Nat → InflateM Unit
  | 0 => throw .truncated
  | fuel + 1 => do
    let next ← symbol literals
    if next < 256 then
      emit next.toUInt8
      codes literals distances fuel
    else if next == 256 then pure ()
    else
      let index := next - 257
      match lengthBase[index]?, lengthExtra[index]? with
      | some base, some extra =>
        let length := base + (← bits extra)
        let code ← symbol distances
        match distanceBase[code]?, distanceExtra[code]? with
        | some distanceStart, some distanceBits =>
          let distance := distanceStart + (← bits distanceBits)
          copyBack distance length
          codes literals distances fuel
        | _, _ => throw .corrupt
      | _, _ => throw .corrupt

/-- The code lengths of a dynamic block, coded with the code-length code: literal lengths,
repeats of the previous length, and runs of zeros. -/
def codeLengths (code : Huffman) (total : Nat) : Nat → Array Nat → InflateM (Array Nat)
  | 0, lengths => pure lengths
  | fuel + 1, lengths => do
    if lengths.size ≥ total then pure lengths
    else
      let next ← symbol code
      if next < 16 then codeLengths code total fuel (lengths.push next)
      else
        let (length, times) ← match next with
          | 16 => do
            match lengths.back? with
            | none => throw .corrupt
            | some previous => pure (previous, 3 + (← bits 2))
          | 17 => do pure (0, 3 + (← bits 3))
          | _ => do pure (0, 11 + (← bits 7))
        if lengths.size + times > total then throw .corrupt
        else codeLengths code total fuel (lengths ++ Array.replicate times length)

/-- A block with dynamic Huffman codes. -/
def dynamic (fuel : Nat) : InflateM Unit := do
  let literalCount := (← bits 5) + 257
  let distanceCount := (← bits 5) + 1
  let codeCount := (← bits 4) + 4
  if literalCount > 286 || distanceCount > 30 then throw .corrupt
  let mut order := Array.replicate 19 0
  for position in codeLengthOrder.take codeCount do
    order := order.set! position (← bits 3)
  let some lengthCode := Huffman.build order.toList | throw .corrupt
  let lengths ← codeLengths lengthCode (literalCount + distanceCount) 400 #[]
  if lengths.getD 256 0 == 0 then throw .corrupt
  let some literals := Huffman.build (lengths.toList.take literalCount) | throw .corrupt
  let some distances := Huffman.build (lengths.toList.drop literalCount) | throw .corrupt
  codes literals distances fuel

/-- The blocks, up to the last one. -/
def blocks (fuel : Nat) : Nat → InflateM Unit
  | 0 => throw .truncated
  | remaining + 1 => do
    let last ← bit
    match ← bits 2 with
    | 0 => stored
    | 1 => codes Huffman.fixedLiterals Huffman.fixedDistances fuel
    | 2 => dynamic fuel
    | _ => throw .corrupt
    if last == 0 then blocks fuel remaining

end Inflate

/-- Decodes DEFLATE data: the output, or none when the data is corrupt or ends before its last
block does. No data at all decodes to nothing. -/
def inflate (input : List UInt8) : Option (List UInt8) :=
  if input.isEmpty then some []
  else
    let fuel := 8 * input.length + 8
    let (outcome, state) := (Inflate.blocks fuel fuel).run.run { input := input.toArray }
    match outcome with
    | .ok () => some state.output.toList
    | .error _ => none

/-- Encodes data as DEFLATE stored blocks of at most 65535 bytes, the last one marked final. -/
def deflateStored (data : List UInt8) : List UInt8 :=
  let rec blocks : Nat → List UInt8 → List UInt8
    | 0, _ => []
    | fuel + 1, rest =>
      let chunk := rest.take 65535
      let tail := rest.drop 65535
      let final := tail.isEmpty
      let length := chunk.length
      let header : List UInt8 :=
        [if final then 1 else 0, (length % 256).toUInt8, (length / 256).toUInt8,
         ((65535 - length) % 256).toUInt8, ((65535 - length) / 256).toUInt8]
      header ++ chunk ++ (if final then [] else blocks fuel tail)
  blocks (data.length / 65535 + 1) data

end ClassKit
