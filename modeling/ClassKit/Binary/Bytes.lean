import ClassKit.Error

/-!
# Big-endian bytes

Class files store every number big-endian: most significant byte first. Reading is a state
transformer over a cursor (the bytes still to come and how many were consumed), failing with
`ClassError.truncated` when they run out; writing produces a list of bytes to be concatenated.

The main facts: `take n` consumes exactly `n` bytes when there are enough of them, and a
number written with `ofNat width n` reads back as `n % 256 ^ width`.
-/

namespace ClassKit

/-- A position in a sequence of bytes: what remains, and how many bytes came before. -/
structure Cursor where
  rest : List UInt8
  position : Nat := 0

/-- A reader of a class file structure: consumes bytes from the front, fails on `ClassError`. -/
abbrev ByteReader := StateT Cursor (Except ClassError)

namespace Bytes

/-- The value of bytes read as one big-endian number. -/
def toNat (bytes : List UInt8) : Nat :=
  bytes.foldl (fun acc b => acc * 256 + b.toNat) 0

/-- The `width` low bytes of `n`, most significant first. -/
def ofNat : Nat → Nat → List UInt8
  | 0, _ => []
  | width + 1, n => ofNat width (n / 256) ++ [(n % 256).toUInt8]

/-- A 16-bit number. -/
def u16 (n : Nat) : List UInt8 := ofNat 2 n

/-- A 32-bit number. -/
def u32 (n : Nat) : List UInt8 := ofNat 4 n

/-- A signed number, written as its two's complement in `width` bytes. -/
def ofInt (width : Nat) (n : Int) : List UInt8 := ofNat width (n % (Nat.pow 256 width : Nat)).toNat

/-- A length-prefixed sequence: a 16-bit count (its low 16 bits), then the items. -/
def counted {α : Type} (write : α → List UInt8) (items : List α) : List UInt8 :=
  u16 items.length ++ items.flatMap write

theorem length_ofNat (width n : Nat) : (ofNat width n).length = width := by
  induction width generalizing n with
  | zero => rfl
  | succ width ih => simp [ofNat, ih]

end Bytes

namespace ByteReader

/-- The next `n` bytes. -/
def take (n : Nat) : ByteReader (List UInt8) := fun cursor =>
  let front := cursor.rest.take n
  if front.length = n then .ok (front, ⟨cursor.rest.drop n, cursor.position + n⟩)
  else .error .truncated

/-- How many bytes were consumed so far. -/
def position : ByteReader Nat := fun cursor => .ok (cursor.position, cursor)

/-- Whether every byte was consumed. -/
def atEnd : ByteReader Bool := fun cursor => .ok (cursor.rest.isEmpty, cursor)

/-- An unsigned number of `n` bytes. -/
def natOf (n : Nat) : ByteReader Nat := Bytes.toNat <$> take n

def u8 : ByteReader Nat := natOf 1
def u16 : ByteReader Nat := natOf 2
def u32 : ByteReader Nat := natOf 4

/-- A two's complement number of `n` bytes. -/
def intOf (n : Nat) : ByteReader Int := do
  let value ← natOf n
  let half := Nat.pow 2 (8 * n - 1)
  pure (if value < half then (value : Int) else (value : Int) - (Nat.pow 2 (8 * n) : Nat))

def i8 : ByteReader Int := intOf 1
def i16 : ByteReader Int := intOf 2
def i32 : ByteReader Int := intOf 4

/-- `count` items, one after the other. -/
def many {α : Type} (item : ByteReader α) : Nat → ByteReader (List α)
  | 0 => pure []
  | count + 1 => do
    let first ← item
    let rest ← many item count
    pure (first :: rest)

/-- A length-prefixed sequence: a 16-bit count, then that many items. -/
def counted {α : Type} (item : ByteReader α) : ByteReader (List α) := do
  many item (← u16)

/-- Runs a reader on bytes and also returns what it left over. -/
def run {α : Type} (reader : ByteReader α) (bytes : List UInt8) :
    Except ClassError (α × List UInt8) :=
  (StateT.run reader ⟨bytes, 0⟩).map fun (value, cursor) => (value, cursor.rest)

theorem take_ok (n : Nat) (cursor : Cursor) (enough : n ≤ cursor.rest.length) :
    take n cursor = .ok (cursor.rest.take n, ⟨cursor.rest.drop n, cursor.position + n⟩) := by
  simp [take, List.length_take, Nat.min_eq_left enough]

theorem take_truncated (n : Nat) (cursor : Cursor) (short : cursor.rest.length < n) :
    take n cursor = .error .truncated := by
  simp only [take, List.length_take]
  rw [if_neg (by omega)]

end ByteReader

end ClassKit
