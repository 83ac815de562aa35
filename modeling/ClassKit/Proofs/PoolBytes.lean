import ClassKit.Pool.Table
import ClassKit.Proofs.Utf8RoundTrip
import Mathlib

/-!
# Reading back a written constant pool

A pool written as bytes reads back as the same pool: `ConstantPool.reads_read`. It holds for
pools laid out by `ConstantPool.ofConstants`, with fewer than 65536 slots, whose references are
16-bit indices and whose texts take at most 65535 bytes in modified UTF-8. The last condition
is not checked when a pool is written: a longer text has its length written modulo 65536, and
reading then goes wrong.

`Reads reader bytes value` says that `reader` reads `value` from exactly `bytes`, whatever follows
them. It is closed under `bind`, so each entry is read back field by field, and the pool entry
by entry.
-/

namespace ClassKit

/-! ## Numbers -/

namespace Bytes

theorem toNat_append_single (bytes : List UInt8) (last : UInt8) :
    toNat (bytes ++ [last]) = toNat bytes * 256 + last.toNat := by
  simp [toNat, List.foldl_append]

/-- A number written in `width` bytes reads back modulo `256 ^ width`. -/
theorem toNat_ofNat (width n : Nat) : toNat (ofNat width n) = n % 256 ^ width := by
  induction width generalizing n with
  | zero => simp [ofNat, toNat, Nat.mod_one]
  | succ width ih =>
    have low : ((n % 256).toUInt8).toNat = n % 256 := by simp
    rw [ofNat, toNat_append_single, ih, low, pow_succ, mul_comm (256 ^ width), Nat.mod_mul]
    ring

end Bytes

namespace ByteReader

variable {α β : Type}

/-- `reader` reads `value` from exactly `bytes`, whatever follows them. -/
def Reads (reader : ByteReader α) (bytes : List UInt8) (value : α) : Prop :=
  ∀ rest position, reader ⟨bytes ++ rest, position⟩ =
    .ok (value, ⟨rest, position + bytes.length⟩)

theorem Reads.pure (value : α) : Reads (Pure.pure value : ByteReader α) [] value :=
  fun _ _ => rfl

theorem Reads.bind {first : ByteReader α} {next : α → ByteReader β} {bytes more : List UInt8}
    {value : α} {result : β} (readFirst : Reads first bytes value)
    (readNext : Reads (next value) more result) :
    Reads (first >>= next) (bytes ++ more) result := by
  intro rest position
  simp only [Bind.bind, StateT.bind, List.append_assoc, readFirst (more ++ rest) position,
    Except.bind]
  rw [readNext rest (position + bytes.length), List.length_append, Nat.add_assoc]

theorem Reads.map {reader : ByteReader α} {bytes : List UInt8} {value : α} (f : α → β)
    (read : Reads reader bytes value) : Reads (f <$> reader) bytes (f value) := by
  intro rest position
  simp only [Functor.map, StateT.map, read rest position]
  rfl

theorem Reads.of_append_nil {reader : ByteReader α} {bytes : List UInt8} {value : α}
    (read : Reads reader (bytes ++ []) value) : Reads reader bytes value := by
  rwa [List.append_nil] at read

theorem Reads.run {reader : ByteReader α} {bytes : List UInt8} {value : α}
    (read : Reads reader bytes value) : reader.run bytes = .ok (value, []) := by
  have whole := read [] 0
  rw [List.append_nil] at whole
  simp [ByteReader.run, StateT.run, whole, Except.map]

theorem reads_take (bytes : List UInt8) : Reads (take bytes.length) bytes bytes := by
  intro rest position
  simp [take]

theorem reads_natOf (width n : Nat) :
    Reads (natOf width) (Bytes.ofNat width n) (n % 256 ^ width) := by
  have read := (reads_take (Bytes.ofNat width n)).map Bytes.toNat
  rwa [Bytes.length_ofNat, Bytes.toNat_ofNat] at read

theorem reads_u8 (byte : UInt8) : Reads u8 [byte] byte.toNat := by
  have read := (reads_take [byte]).map Bytes.toNat
  simp only [Bytes.toNat, List.foldl_cons, List.foldl_nil, zero_mul, zero_add,
    List.length_singleton] at read
  exact read

theorem reads_u16 {n : Nat} (small : n < 65536) : Reads u16 (Bytes.u16 n) n := by
  have read := reads_natOf 2 n
  rwa [Nat.mod_eq_of_lt (by simpa using small)] at read

theorem reads_u32 {n : Nat} (small : n < 2 ^ 32) : Reads u32 (Bytes.u32 n) n := by
  have read := reads_natOf 4 n
  rwa [Nat.mod_eq_of_lt (by simpa using small)] at read

/-- A number written as two's complement in `width` bytes reads back when it fits. -/
theorem reads_intOf {width : Nat} (wide : 0 < width) {value : Int}
    (above : -2 ^ (8 * width - 1) ≤ value) (below : value < 2 ^ (8 * width - 1)) :
    Reads (intOf width) (Bytes.ofInt width value) value := by
  -- the modulus is twice the half that splits the non-negative numbers from the negative ones
  obtain ⟨half, isHalf⟩ : ∃ half : Nat, 2 ^ (8 * width - 1) = half := ⟨_, rfl⟩
  have whole : 2 ^ (8 * width) = 2 * half := by
    rw [← isHalf, ← pow_succ']
    congr 1
    omega
  have bytesWide : 256 ^ width = 2 * half := by
    rw [← whole, pow_mul]
    norm_num
  have halfInt : (2 : Int) ^ (8 * width - 1) = half := by
    rw [← isHalf]
    push_cast
    rfl
  rw [halfInt] at above below
  -- the stored number: `value` itself when it is not negative, `value + 2 * half` otherwise
  have stored : ((value % ((2 * half : Nat) : Int)).toNat : Int) =
      if 0 ≤ value then value else value + 2 * half := by
    split
    · rw [Int.emod_eq_of_lt (by omega) (by push_cast; omega)]
      omega
    · rw [Int.emod_eq_add_self_emod, Int.emod_eq_of_lt (by push_cast; omega) (by push_cast; omega)]
      push_cast
      omega
  have fits : (value % ((2 * half : Nat) : Int)).toNat < 2 * half := by
    split at stored <;> omega
  intro rest position
  simp only [intOf, Bytes.ofInt, Nat.pow_eq, bytesWide, isHalf, whole, Bind.bind, StateT.bind]
  rw [reads_natOf width _ rest position, bytesWide, Nat.mod_eq_of_lt fits]
  simp only [Pure.pure, StateT.pure, Except.pure, Except.bind, Except.ok.injEq, Prod.mk.injEq,
    and_true]
  split at stored <;> split <;> omega

end ByteReader

/-! ## Entries -/

namespace Constant

open ByteReader

/-- An entry the format can hold: references are 16-bit indices and a text takes at most
65535 bytes. -/
def Fits : Constant → Prop
  | utf8 text => (ModifiedUtf8.encode text).length < 65536
  | classRef name | string name => name < 65536
  | fieldRef owner member | methodRef owner member _ | nameAndType owner member =>
    owner < 65536 ∧ member < 65536
  | _ => True

/-- The fields of an entry written one after the other read back as the entry. -/
theorem reads_two {first second : Nat} (fits : first < 65536 ∧ second < 65536)
    (entry : Nat → Nat → Constant) :
    Reads (u16 >>= fun first => u16 >>= fun second => Pure.pure (entry first second))
      (Bytes.u16 first ++ (Bytes.u16 second ++ [])) (entry first second) :=
  (reads_u16 fits.1).bind ((reads_u16 fits.2).bind (Reads.pure _))

/-- **An entry reads back from its bytes** when the format can hold it. -/
theorem reads_read {constant : Constant} (fits : constant.Fits) :
    Reads read constant.bytes constant := by
  cases constant with
  | utf8 text =>
    -- the length, then the text, which decodes back
    rw [Constant.bytes, List.append_assoc]
    unfold Constant.read
    refine (reads_u8 1).bind ((reads_u16 fits).bind (Reads.of_append_nil
      ((reads_take (ModifiedUtf8.encode text)).bind ?_)))
    simp only [ModifiedUtf8.decode_encode]
    exact Reads.pure _
  | integer value =>
    have read := (reads_intOf (show 0 < 4 by omega) (by simpa using value.le_toInt)
      (by simpa using value.toInt_lt)).map fun value => integer (Int32.ofInt value)
    rw [Int32.ofInt_toInt] at read
    unfold Constant.read
    exact (reads_u8 3).bind read
  | float bits =>
    have read := (reads_u32 bits.toNat_lt).map fun value => float value.toUInt32
    rw [Nat.toUInt32_eq, UInt32.ofNat_toNat] at read
    unfold Constant.read
    exact (reads_u8 4).bind read
  | long value =>
    have read := (reads_intOf (show 0 < 8 by omega) (by simpa using value.le_toInt)
      (by simpa using value.toInt_lt)).map fun value => long (Int64.ofInt value)
    rw [Int64.ofInt_toInt] at read
    unfold Constant.read
    exact (reads_u8 5).bind read
  | double bits =>
    have read := (reads_natOf 8 bits.toNat).map fun value => double value.toUInt64
    rw [Nat.mod_eq_of_lt (by simpa using bits.toNat_lt), Nat.toUInt64_eq, UInt64.ofNat_toNat] at read
    unfold Constant.read
    exact (reads_u8 6).bind read
  | classRef name =>
    unfold Constant.read
    exact (reads_u8 7).bind ((reads_u16 fits).map _)
  | string text =>
    unfold Constant.read
    exact (reads_u8 8).bind ((reads_u16 fits).map _)
  | fieldRef owner member =>
    rw [Constant.bytes, ← List.append_nil (Bytes.u16 member), List.append_assoc]
    unfold Constant.read
    exact (reads_u8 9).bind (reads_two fits fieldRef)
  | methodRef owner member isInterface =>
    rw [Constant.bytes, ← List.append_nil (Bytes.u16 member), List.append_assoc]
    unfold Constant.read
    cases isInterface
    · exact (reads_u8 10).bind (reads_two fits fun owner member => methodRef owner member false)
    · exact (reads_u8 11).bind (reads_two fits fun owner member => methodRef owner member true)
  | nameAndType name descriptor =>
    rw [Constant.bytes, ← List.append_nil (Bytes.u16 descriptor), List.append_assoc]
    unfold Constant.read
    exact (reads_u8 12).bind (reads_two fits nameAndType)

end Constant

/-! ## The pool -/

namespace ConstantPool

open ByteReader

/-- The slots an entry takes: the entry, then an unusable slot when it is wide. -/
def slotsOf (constant : Constant) : List (Option Constant) :=
  some constant :: if constant.width == 2 then [none] else []

theorem entries_ofConstants (constants : Array Constant) :
    (ofConstants constants).entries.toList = none :: constants.toList.flatMap slotsOf := by
  -- the fold appends the slots of each entry to what it has laid out so far
  have laid : ∀ (list : List Constant) (slots : Array (Option Constant)),
      (list.foldl (fun slots constant =>
        let slots := slots.push (some constant)
        if constant.width == 2 then slots.push none else slots) slots).toList =
        slots.toList ++ list.flatMap slotsOf := by
    intro list
    induction list with
    | nil => simp
    | cons constant rest ih =>
      intro slots
      rw [List.foldl_cons, ih]
      by_cases wide : constant.width = 2 <;> simp [slotsOf, wide]
  rw [ofConstants, ← Array.foldl_toList, laid]
  rfl

theorem size_ofConstants (constants : Array Constant) :
    (ofConstants constants).entries.size = 1 + (constants.toList.flatMap slotsOf).length := by
  rw [← Array.length_toList, entries_ofConstants, List.length_cons, Nat.add_comm]

/-- The bytes of a laid out pool: the slot count, then each entry. -/
theorem bytes_ofConstants (constants : Array Constant) :
    (ofConstants constants).bytes =
      Bytes.u16 (ofConstants constants).entries.size ++ constants.toList.flatMap Constant.bytes := by
  rw [ConstantPool.bytes, entries_ofConstants, List.flatMap_cons, List.nil_append,
    List.flatMap_assoc]
  congr 1
  refine List.flatMap_congr fun constant _ => ?_
  by_cases wide : constant.width = 2 <;> simp [slotsOf, wide]

theorem length_le_slots (constants : List Constant) :
    constants.length ≤ (constants.flatMap slotsOf).length := by
  induction constants with
  | nil => simp
  | cons constant rest ih =>
    simp only [List.flatMap_cons, List.length_append, List.length_cons, slotsOf]
    omega

/-- Reading entries until `count` slots are filled reads back the slots they take. -/
theorem reads_readSlots {count : Nat} (constants : List Constant)
    (fits : ∀ constant ∈ constants, constant.Fits) :
    ∀ (fuel : Nat) (slots : Array (Option Constant)), constants.length ≤ fuel →
      slots.size + (constants.flatMap slotsOf).length = count →
      Reads (readSlots count fuel slots) (constants.flatMap Constant.bytes)
        (slots ++ (constants.flatMap slotsOf).toArray) := by
  induction constants with
  | nil =>
    intro fuel slots _ filled
    simp only [List.flatMap_nil, List.length_nil, Nat.add_zero] at filled
    cases fuel with
    | zero =>
      rw [readSlots]
      simpa using Reads.pure slots
    | succ fuel =>
      rw [readSlots, if_neg (by omega)]
      simpa using Reads.pure slots
  | cons constant rest ih =>
    intro fuel slots enough filled
    obtain ⟨fuel, rfl⟩ : ∃ remaining, fuel = remaining + 1 :=
      ⟨fuel - 1, by simp at enough; omega⟩
    have room : slots.size < count := by
      simp only [List.flatMap_cons, List.length_append, slotsOf, List.length_cons] at filled
      omega
    -- one entry is read, and its slots are pushed before the rest is read
    have next := ih (fun other member => fits other (List.mem_cons_of_mem _ member)) fuel
      ((fun slots => if constant.width == 2 then slots.push none else slots)
        (slots.push (some constant))) (by simpa using enough)
      (by
        simp only [List.flatMap_cons, List.length_append, slotsOf, List.length_cons] at filled
        by_cases wide : constant.width = 2 <;> simp [wide] at filled ⊢ <;> omega)
    rw [readSlots, if_pos room, List.flatMap_cons]
    refine (Constant.reads_read (fits constant (by simp))).bind ?_
    convert next using 1
    by_cases wide : constant.width = 2 <;> simp [slotsOf, wide]

/-- **A laid out pool reads back from its bytes** when it has fewer than 65536 slots and the
format can hold each of its entries. -/
theorem reads_read {constants : Array Constant}
    (fits : ∀ constant ∈ constants.toList, constant.Fits)
    (small : (ofConstants constants).entries.size < 65536) :
    Reads read (ofConstants constants).bytes (ofConstants constants) := by
  have size := size_ofConstants constants
  have enough : constants.toList.length ≤ (ofConstants constants).entries.size := by
    have := length_le_slots constants.toList
    omega
  have slots := @reads_readSlots (ofConstants constants).entries.size constants.toList fits _
    #[none] enough (by rw [size]; simp)
  have laid : #[none] ++ (constants.toList.flatMap slotsOf).toArray =
      (ofConstants constants).entries := by
    apply Array.toList_inj.mp
    rw [entries_ofConstants]
    simp
  rw [laid] at slots
  rw [bytes_ofConstants]
  unfold read
  refine (reads_u16 small).bind (Reads.of_append_nil (slots.bind ?_))
  simp only [bne_self_eq_false, Bool.false_eq_true, if_false]
  exact Reads.pure _

end ConstantPool

end ClassKit
