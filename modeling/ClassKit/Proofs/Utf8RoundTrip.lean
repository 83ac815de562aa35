import ClassKit.Text.ModifiedUtf8
import Mathlib.Tactic

/-!
# Modified UTF-8 reads back what it writes

Every text written in modified UTF-8 decodes to itself: `decode_encode`. Writing goes through
UTF-16 code units, each in its one, two or three byte form; reading splits the bytes back into
the same code units and joins surrogate pairs into the characters they came from.

The proof follows the two stages: `toUnits_unitBytes` reads one code unit back from its bytes,
whatever follows, and `ofUnits_units` joins the code units of each character back into it.
-/

namespace ClassKit.ModifiedUtf8

/-! ## Bytes to code units -/

section Forms

variable (rest : List UInt8) (offset : Nat)

/-- The one byte form: a byte from `01` to `7F`. -/
theorem toUnits_one {b0 : UInt8} (ascii : 0 < b0.toNat ∧ b0.toNat < 0x80) :
    toUnits (b0 :: rest) offset = (toUnits rest (offset + 1)).map (b0.toNat :: ·) := by
  have lead : (b0.toNat < 0x80 && b0.toNat != 0) = true := by simp; omega
  rw [toUnits.eq_def]
  simp only [lead, if_true]

/-- The two byte form: `110xxxxx 10xxxxxx`. -/
theorem toUnits_two {b0 b1 : UInt8} (lead : b0.toNat / 0x20 = 6) (follow : b1.toNat / 0x40 = 2) :
    toUnits (b0 :: b1 :: rest) offset =
      (toUnits rest (offset + 2)).map (((b0.toNat % 0x20) * 0x40 + b1.toNat % 0x40) :: ·) := by
  have notOne : (b0.toNat < 0x80 && b0.toNat != 0) = false := by simp; omega
  have isTwo : (b0.toNat / 0x20 == 6) = true := by simp [lead]
  have continues : isContinuation b1 = true := by simp [isContinuation, follow]
  rw [toUnits, if_neg (by simp [notOne]), if_pos isTwo]
  simp only [continues, if_true]

/-- The three byte form: `1110xxxx 10xxxxxx 10xxxxxx`. -/
theorem toUnits_three {b0 b1 b2 : UInt8} (lead : b0.toNat / 0x10 = 14)
    (follow₁ : b1.toNat / 0x40 = 2) (follow₂ : b2.toNat / 0x40 = 2) :
    toUnits (b0 :: b1 :: b2 :: rest) offset =
      (toUnits rest (offset + 3)).map
        (((b0.toNat % 0x10) * 0x1000 + (b1.toNat % 0x40) * 0x40 + b2.toNat % 0x40) :: ·) := by
  have notOne : (b0.toNat < 0x80 && b0.toNat != 0) = false := by simp; omega
  have notTwo : (b0.toNat / 0x20 == 6) = false := by simp; omega
  have isThree : (b0.toNat / 0x10 == 14) = true := by simp [lead]
  have continues : (isContinuation b1 && isContinuation b2) = true := by
    simp [isContinuation, follow₁, follow₂]
  rw [toUnits, if_neg (by simp [notOne]), if_neg (by simp [notTwo]), if_pos isThree]
  simp only [continues, if_true]

end Forms

theorem toNat_toUInt8 {n : Nat} (small : n < 0x100) : n.toUInt8.toNat = n := by
  rw [show n.toUInt8.toNat = n % 256 by simp]
  omega

/-- A code unit is read back from its bytes, whatever follows them. -/
theorem toUnits_unitBytes {unit : Nat} (small : unit < 0x10000) (rest : List UInt8)
    (offset : Nat) :
    toUnits (unitBytes unit ++ rest) offset =
      (toUnits rest (offset + (unitBytes unit).length)).map (unit :: ·) := by
  unfold unitBytes
  by_cases ascii : 0x01 ≤ unit ∧ unit ≤ 0x7f
  · have one : (0x01 ≤ unit && unit ≤ 0x7f) = true := by simp; omega
    have byte := toNat_toUInt8 (show unit < 0x100 by omega)
    simp only [one, if_true, List.singleton_append, List.length_singleton]
    rw [toUnits_one _ _ (by omega), byte]
  · have notOne : (0x01 ≤ unit && unit ≤ 0x7f) = false := by simp; omega
    simp only [notOne, Bool.false_eq_true, if_false]
    by_cases two : unit ≤ 0x7ff
    · -- NUL takes this form too, as `C0 80`
      have lead := toNat_toUInt8 (show 0xc0 + unit / 0x40 < 0x100 by omega)
      have follow := toNat_toUInt8 (show 0x80 + unit % 0x40 < 0x100 by omega)
      have value : (0xc0 + unit / 0x40) % 0x20 * 0x40 + (0x80 + unit % 0x40) % 0x40 = unit := by
        omega
      simp only [two, if_true, List.cons_append, List.nil_append, List.length_cons,
        List.length_nil]
      rw [toUnits_two _ _ (by rw [lead]; omega) (by rw [follow]; omega), lead, follow, value]
    · have lead := toNat_toUInt8 (show 0xe0 + unit / 0x1000 < 0x100 by omega)
      have follow₁ := toNat_toUInt8 (show 0x80 + unit / 0x40 % 0x40 < 0x100 by omega)
      have follow₂ := toNat_toUInt8 (show 0x80 + unit % 0x40 < 0x100 by omega)
      have value : (0xe0 + unit / 0x1000) % 0x10 * 0x1000 + (0x80 + unit / 0x40 % 0x40) % 0x40 * 0x40 +
          (0x80 + unit % 0x40) % 0x40 = unit := by
        omega
      simp only [two, if_false, List.cons_append, List.nil_append, List.length_cons,
        List.length_nil]
      rw [toUnits_three _ _ (by rw [lead]; omega) (by rw [follow₁]; omega)
        (by rw [follow₂]; omega), lead, follow₁, follow₂, value]

theorem toUnits_flatMap_unitBytes (codeUnits : List Nat) (small : ∀ unit ∈ codeUnits, unit < 0x10000)
    (offset : Nat) : toUnits (codeUnits.flatMap unitBytes) offset = .ok codeUnits := by
  induction codeUnits generalizing offset with
  | nil => rfl
  | cons unit rest ih =>
    rw [List.flatMap_cons, toUnits_unitBytes (small unit (by simp)),
      ih (fun other member => small other (by simp [member]))]
    rfl

/-! ## Code units to characters -/

theorem ofUnits_single {unit : Nat} (plain : unit < 0xd800 ∨ 0xdfff < unit) (rest : List Nat) :
    ofUnits (unit :: rest) = (ofUnits rest).map (Char.ofNat unit :: ·) := by
  have notHigh : (0xd800 ≤ unit && unit ≤ 0xdbff) = false := by simp; omega
  have notLow : (0xdc00 ≤ unit && unit ≤ 0xdfff) = false := by simp; omega
  rw [ofUnits.eq_def]
  simp only [notHigh, notLow, Bool.false_eq_true, if_false]

theorem ofUnits_pair {high low : Nat} (isHigh : 0xd800 ≤ high ∧ high ≤ 0xdbff)
    (isLow : 0xdc00 ≤ low ∧ low ≤ 0xdfff) (rest : List Nat) :
    ofUnits (high :: low :: rest) =
      (ofUnits rest).map (Char.ofNat (0x10000 + (high - 0xd800) * 0x400 + (low - 0xdc00)) :: ·) := by
  have high' : (0xd800 ≤ high && high ≤ 0xdbff) = true := by simp; omega
  have low' : (0xdc00 ≤ low && low ≤ 0xdfff) = true := by simp; omega
  rw [ofUnits, if_pos high']
  simp only [low', if_true]

/-- A character's code units are below `10000`, so each has a byte form. -/
theorem units_lt (c : Char) : ∀ unit ∈ units c, unit < 0x10000 := by
  have valid : c.toNat < 0xd800 ∨ (0xdfff < c.toNat ∧ c.toNat < 0x110000) := c.valid
  unfold units
  split <;> simp <;> omega

/-- The code units of characters join back into the characters. -/
theorem ofUnits_units (chars : List Char) : ofUnits (chars.flatMap units) = .ok chars := by
  induction chars with
  | nil => rfl
  | cons c rest ih =>
    have valid : c.toNat < 0xd800 ∨ (0xdfff < c.toNat ∧ c.toNat < 0x110000) := c.valid
    rw [List.flatMap_cons, units]
    split
    · -- a character of the basic plane is its own code unit, never a surrogate
      rw [List.singleton_append, ofUnits_single (by omega), ih, Char.ofNat_toNat]
      rfl
    · -- beyond it, a surrogate pair that splits `c - 10000` into ten bit halves
      have joined : 0x10000 + (0xd800 + (c.toNat - 0x10000) / 0x400 - 0xd800) * 0x400 +
          (0xdc00 + (c.toNat - 0x10000) % 0x400 - 0xdc00) = c.toNat := by
        omega
      rw [List.cons_append, List.cons_append, List.nil_append,
        ofUnits_pair (by omega) (by omega), joined, ih, Char.ofNat_toNat]
      rfl

/-- **Modified UTF-8 reads back what it writes.** -/
theorem decode_encode (text : String) : decode (encode text) = .ok text := by
  have small : ∀ unit ∈ text.toList.flatMap units, unit < 0x10000 := by
    intro unit member
    obtain ⟨c, -, isUnit⟩ := List.mem_flatMap.mp member
    exact units_lt c unit isUnit
  have written : encode text = (text.toList.flatMap units).flatMap unitBytes := by
    rw [encode, List.flatMap_assoc]
  rw [decode, written, toUnits_flatMap_unitBytes _ small]
  simp only [bind, Except.bind, ofUnits_units, pure, Except.pure, String.ofList_toList]

end ClassKit.ModifiedUtf8
