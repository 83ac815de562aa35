import ClassKit.Patch.Shifts
import Mathlib.Tactic.NormNum

/-!
# Masking shift distances

A shift reads five bits of its distance (six for a `long` shift). `Body.maskShifts` looks at
every instruction pushing an `int` constant that stands right before a shift, with no label
between, and when the mask of that shift changes the constant it pushes the masked constant
instead, in the same form: `ldc` stays `ldc`, `sipush` stays `sipush`, and `bipush` and the
`iconst` forms become `bipush`.

Main statement, `Body.maskShifts_masks_shift_constants`: the pass keeps the handlers and every
position, replaces exactly the constants `Body.MasksAt` describes and leaves every other entry,
labels included, as it was; it returns the number of positions that changed; and a second run
changes nothing and counts nothing.

The proof names what the pass puts at each position (`Body.replacementAt`) and reads it against
`Body.MasksAt`. Masked constants lie between 0 and 63, so they fit a byte and a short unchanged
(`toInt8_toInt32_and_mask`), and masking twice is masking once: that is why nothing is left for
a second run.
-/

namespace ClassKit

/-! ## Masked constants -/

namespace Instruction

/-- `replacement` pushes `value` in the form family of `constant`: an `ldc` of an `int` by an
`ldc`, a `sipush` by a `sipush`, and a `bipush` or an `iconst` by a `bipush`. -/
inductive PushesAs : Instruction → Instruction → Int32 → Prop where
  | ldc {old value : Int32} : PushesAs (.ldc (.integer old)) (.ldc (.integer value)) value
  | sipush {old new : Int16} : PushesAs (.sipush old) (.sipush new) new.toInt32
  | bipush {old new : Int8} : PushesAs (.bipush old) (.bipush new) new.toInt32
  | iconst {small : SmallInt} {new : Int8} : PushesAs (.iconst small) (.bipush new) new.toInt32

theorem PushesAs.intConstant? {constant replacement : Instruction} {value : Int32}
    (pushes : constant.PushesAs replacement value) : replacement.intConstant? = some value := by
  cases pushes <;> rfl

theorem PushesAs.not_shift {constant replacement : Instruction} {value : Int32}
    (pushes : constant.PushesAs replacement value) (kind : ShiftKind) (isLong : IsLong) :
    replacement ≠ .shift kind isLong := by
  cases pushes <;> exact Instruction.noConfusion

end Instruction

section Masks

variable {mask : Int32}

/-- A value masked by 31 or 63 lies between 0 and 63. -/
theorem toInt_and_mask (isMask : mask = 31 ∨ mask = 63) (value : Int32) :
    0 ≤ (value &&& mask).toInt ∧ (value &&& mask).toInt ≤ 63 := by
  have bits : (value &&& mask).toBitVec.toNat ≤ 63 := by
    rw [Int32.toBitVec_and, BitVec.toNat_and]
    rcases isMask with rfl | rfl
    · exact Nat.le_trans Nat.and_le_right (by decide)
    · exact Nat.and_le_right
  rw [← Int32.toInt_toBitVec, BitVec.toInt_eq_toNat_of_lt (by omega)]
  omega

/-- A masked value fits a byte. -/
theorem toInt8_toInt32_and_mask (isMask : mask = 31 ∨ mask = 63) (value : Int32) :
    (value &&& mask).toInt8.toInt32 = value &&& mask := by
  obtain ⟨low, high⟩ := toInt_and_mask isMask value
  apply Int32.toInt_inj.mp
  rw [Int8.toInt_toInt32, Int32.toInt_toInt8,
    Int.bmod_eq_of_le (by norm_num; omega) (by norm_num; omega)]

/-- A masked value fits a short. -/
theorem toInt16_toInt32_and_mask (isMask : mask = 31 ∨ mask = 63) (value : Int32) :
    (value &&& mask).toInt16.toInt32 = value &&& mask := by
  obtain ⟨low, high⟩ := toInt_and_mask isMask value
  apply Int32.toInt_inj.mp
  rw [Int16.toInt_toInt32, Int32.toInt_toInt16,
    Int.bmod_eq_of_le (by norm_num; omega) (by norm_num; omega)]

theorem and_mask_and_mask (value : Int32) : value &&& mask &&& mask = value &&& mask := by
  rw [Int32.and_assoc, Int32.and_self]

end Masks

/-- The mask of an `int` shift, or of a `long` one. -/
theorem shift_isMask (isLong : IsLong) :
    (if isLong then (63 : Int32) else 31) = 31 ∨ (if isLong then (63 : Int32) else 31) = 63 := by
  cases isLong
  · exact .inl rfl
  · exact .inr rfl

namespace Entry

theorem shiftMask?_eq_some {entry : Entry} {mask : Int32} (found : entry.shiftMask? = some mask) :
    ∃ kind isLong, entry = .instruction (.shift kind isLong) ∧ mask = if isLong then 63 else 31 := by
  rcases entry with _ | instruction | _
  · cases found
  · cases instruction with
    | shift kind isLong =>
      cases found
      exact ⟨kind, isLong, rfl, rfl⟩
    | _ => cases found
  · cases found

end Entry

namespace Instruction

variable {mask : Int32}

/-- The test that keeps a constant the mask leaves alone: a replacement means a change. -/
theorem changed_of_masked {value : Int32} {pushed replacement : Instruction}
    (masked : (if (value &&& mask == value) = true then none else some pushed) = some replacement) :
    value &&& mask ≠ value ∧ pushed = replacement := by
  split at masked
  · cases masked
  · rename_i changed
    cases masked
    exact ⟨fun same => changed (beq_iff_eq.mpr same), rfl⟩

/-- A constant is replaced only when the mask changes it, by a push of the masked value in the
same form. -/
theorem maskedDistance?_eq_some (isMask : mask = 31 ∨ mask = 63) {constant replacement : Instruction}
    (masked : constant.maskedDistance? mask = some replacement) :
    ∃ value, constant.intConstant? = some value ∧ value &&& mask ≠ value ∧
      constant.PushesAs replacement (value &&& mask) := by
  -- each form of constant reduces the definition to its own test; `bipush` and `sipush` read
  -- the masked value back through their narrower type
  cases constant with
  | iconst small =>
    obtain ⟨changed, rfl⟩ := changed_of_masked masked
    have pushes : PushesAs (iconst small) (bipush (Int32.ofInt small.toInt &&& mask).toInt8)
        (Int32.ofInt small.toInt &&& mask).toInt8.toInt32 := .iconst
    rw [toInt8_toInt32_and_mask isMask] at pushes
    exact ⟨_, rfl, changed, pushes⟩
  | bipush old =>
    obtain ⟨changed, rfl⟩ := changed_of_masked masked
    have pushes : PushesAs (bipush old) (bipush (old.toInt32 &&& mask).toInt8)
        (old.toInt32 &&& mask).toInt8.toInt32 := .bipush
    rw [toInt8_toInt32_and_mask isMask] at pushes
    exact ⟨_, rfl, changed, pushes⟩
  | sipush old =>
    obtain ⟨changed, rfl⟩ := changed_of_masked masked
    have pushes : PushesAs (sipush old) (sipush (old.toInt32 &&& mask).toInt16)
        (old.toInt32 &&& mask).toInt16.toInt32 := .sipush
    rw [toInt16_toInt32_and_mask isMask] at pushes
    exact ⟨_, rfl, changed, pushes⟩
  | ldc literal =>
    cases literal with
    | integer old =>
      obtain ⟨changed, rfl⟩ := changed_of_masked masked
      exact ⟨_, rfl, changed, .ldc⟩
    | _ => cases masked
  | _ => cases masked

/-- A constant the mask changes is replaced. -/
theorem maskedDistance?_isSome {constant : Instruction} {value : Int32}
    (pushed : constant.intConstant? = some value) (changed : value &&& mask ≠ value) :
    (constant.maskedDistance? mask).isSome := by
  unfold maskedDistance?
  rw [pushed]
  change (if (value &&& mask == value) = true then none else some _).isSome = true
  rw [if_neg (fun same => changed (beq_iff_eq.mp same))]
  rfl

end Instruction

/-! ## What the pass replaces -/

/-- Counting over a list is counting over its positions. -/
theorem countP_eq_countP_range {α : Type} (p : α → Bool) :
    ∀ items : List α, items.countP p = (List.range items.length).countP fun index => items[index]?.any p
  | [] => rfl
  | first :: rest => by
    rw [List.length_cons, List.range_succ_eq_map, List.countP_cons, List.countP_cons, List.countP_map,
      countP_eq_countP_range p rest]
    simp [Function.comp_def]

namespace Body

theorem ext {body body' : Body} (entries : body.entries = body'.entries)
    (handlers : body.handlers = body'.handlers) : body = body' := by
  cases body
  cases body'
  cases entries
  cases handlers
  rfl

/-- Position `index` of `entries` holds an instruction pushing an `int` constant, the next
position holds a shift (no label between), the shift's mask changes the constant, and
`replacement` pushes the masked constant in the constant's form. -/
def MasksAt (entries : Array Entry) (index : Nat) (replacement : Instruction) : Prop :=
  ∃ constant kind isLong value, entries[index]? = some (.instruction constant) ∧
    entries[index + 1]? = some (.instruction (.shift kind isLong)) ∧
    constant.intConstant? = some value ∧ value &&& (if isLong then 63 else 31) ≠ value ∧
    constant.PushesAs replacement (value &&& (if isLong then 63 else 31))

/-- What `maskShifts` puts in place of `entry` at position `index`, if anything. -/
def replacementAt (entries : Array Entry) (index : Nat) (entry : Entry) : Option Entry :=
  match (entries[index + 1]?).bind Entry.shiftMask?, entry with
  | some mask, .instruction instruction => Entry.instruction <$> instruction.maskedDistance? mask
  | _, _ => none

theorem maskShifts_eq (body : Body) :
    body.maskShifts =
      ({ body with
          entries := ((body.entries.mapIdx (replacementAt body.entries)).zip body.entries).map
            (fun pair => pair.1.getD pair.2) },
        (body.entries.mapIdx (replacementAt body.entries)).countP Option.isSome) :=
  rfl

theorem isMask_of_shiftMask? {entry : Entry} {mask : Int32} (found : entry.shiftMask? = some mask) :
    mask = 31 ∨ mask = 63 := by
  obtain ⟨-, isLong, -, rfl⟩ := Entry.shiftMask?_eq_some found
  exact shift_isMask isLong

/-- A replacement is made only where `MasksAt` says so. -/
theorem masksAt_of_replacementAt {entries : Array Entry} {index : Nat} {entry replaced : Entry}
    (found : entries[index]? = some entry) (replacing : replacementAt entries index entry = some replaced) :
    ∃ replacement, replaced = .instruction replacement ∧ MasksAt entries index replacement := by
  unfold replacementAt at replacing
  split at replacing
  · rename_i mask constant shiftFound
    obtain ⟨next, nextFound, isShift⟩ := Option.bind_eq_some_iff.mp shiftFound
    obtain ⟨kind, isLong, rfl, rfl⟩ := Entry.shiftMask?_eq_some isShift
    obtain ⟨replacement, masked, rfl⟩ := Option.map_eq_some_iff.mp replacing
    obtain ⟨value, pushed, changed, pushes⟩ :=
      Instruction.maskedDistance?_eq_some (isMask_of_shiftMask? isShift) masked
    exact ⟨replacement, rfl, constant, kind, isLong, value, found, nextFound, pushed, changed, pushes⟩
  · cases replacing

/-- Where `MasksAt` holds, a replacement is made. -/
theorem replacementAt_isSome {entries : Array Entry} {index : Nat} {entry : Entry}
    {replacement : Instruction} (found : entries[index]? = some entry)
    (masks : MasksAt entries index replacement) : (replacementAt entries index entry).isSome := by
  obtain ⟨constant, kind, isLong, value, atIndex, next, pushed, changed, -⟩ := masks
  rw [found] at atIndex
  cases atIndex
  have shift : (entries[index + 1]?).bind Entry.shiftMask? = some (if isLong then 63 else 31) := by
    rw [next]
    rfl
  unfold replacementAt
  rw [shift]
  show (Option.map Entry.instruction (constant.maskedDistance? _)).isSome = true
  rw [Option.isSome_map]
  exact Instruction.maskedDistance?_isSome pushed changed

/-- A replacement differs from the entry it replaces: it pushes another value. -/
theorem replacementAt_ne {entries : Array Entry} {index : Nat} {entry replaced : Entry}
    (found : entries[index]? = some entry) (replacing : replacementAt entries index entry = some replaced) :
    replaced ≠ entry := by
  obtain ⟨replacement, rfl, constant, _, _, value, atIndex, -, pushed, changed, pushes⟩ :=
    masksAt_of_replacementAt found replacing
  rw [found] at atIndex
  cases atIndex
  intro same
  have pushedAgain := pushes.intConstant?
  rw [Entry.instruction.injEq] at same
  rw [same] at pushedAgain
  exact changed (Option.some.inj (pushedAgain.symm.trans pushed))

/-! ## The pass, position by position -/

@[simp] theorem maskShifts_handlers (body : Body) : body.maskShifts.1.handlers = body.handlers := rfl

@[simp] theorem size_maskShifts (body : Body) : body.maskShifts.1.entries.size = body.entries.size := by
  rw [maskShifts_eq]
  simp

theorem getElem?_maskShifts (body : Body) (index : Nat) :
    body.maskShifts.1.entries[index]? =
      body.entries[index]?.map fun entry => (replacementAt body.entries index entry).getD entry := by
  rw [maskShifts_eq]
  dsimp only
  rw [Array.getElem?_map, Array.zip_eq_zipWith, Array.getElem?_zipWith, Array.getElem?_mapIdx]
  cases body.entries[index]? <;> rfl

/-- Each position of the result holds the replacement `MasksAt` describes, or the entry that was
there. -/
theorem getElem?_maskShifts_cases (body : Body) {index : Nat} (inside : index < body.entries.size) :
    (∃ replacement, MasksAt body.entries index replacement ∧
        body.maskShifts.1.entries[index]? = some (.instruction replacement)) ∨
      ((∀ replacement, ¬ MasksAt body.entries index replacement) ∧
        body.maskShifts.1.entries[index]? = body.entries[index]?) := by
  have found : body.entries[index]? = some body.entries[index] := Array.getElem?_eq_getElem inside
  rw [getElem?_maskShifts, found]
  cases replacing : replacementAt body.entries index body.entries[index] with
  | some replaced =>
    obtain ⟨replacement, rfl, masks⟩ := masksAt_of_replacementAt found replacing
    exact .inl ⟨replacement, masks, by rw [Option.map_some, replacing]; rfl⟩
  | none =>
    refine .inr ⟨fun replacement masks => ?_, by rw [Option.map_some, replacing]; rfl⟩
    have made := replacementAt_isSome found masks
    rw [replacing] at made
    cases made

/-- The count is the number of positions that changed. -/
theorem maskShifts_count (body : Body) :
    body.maskShifts.2 = (List.range body.entries.size).countP
      fun index => body.maskShifts.1.entries[index]? != body.entries[index]? := by
  have counted : body.maskShifts.2 =
      (body.entries.mapIdx (replacementAt body.entries)).countP Option.isSome := rfl
  rw [counted, ← Array.countP_toList, countP_eq_countP_range]
  simp only [Array.length_toList, Array.size_mapIdx, Array.getElem?_toList]
  apply List.countP_congr
  intro index _
  rw [getElem?_maskShifts, Array.getElem?_mapIdx]
  cases found : body.entries[index]? with
  | none => rfl
  | some entry =>
    simp only [Option.map_some, Option.any_some]
    cases replacing : replacementAt body.entries index entry with
    | none => simp
    | some replaced => simpa using replacementAt_ne found replacing

/-- Replacements push constants, so a shift in the result stood there before. -/
theorem shift_of_maskShifts {body : Body} {index : Nat} {kind : ShiftKind} {isLong : IsLong}
    (found : body.maskShifts.1.entries[index]? = some (.instruction (.shift kind isLong))) :
    body.entries[index]? = some (.instruction (.shift kind isLong)) := by
  have inside : index < body.entries.size := by
    simpa using (Array.getElem?_eq_some_iff.mp found).1
  rcases getElem?_maskShifts_cases body inside with
    ⟨replacement, ⟨_, _, _, _, _, _, _, _, pushes⟩, placed⟩ | ⟨-, kept⟩
  · rw [placed] at found
    cases found
    exact absurd rfl (pushes.not_shift kind isLong)
  · rw [← kept, found]

/-- A constant before a shift that no replacement is made for is one the shift's mask keeps. -/
theorem and_mask_eq_of_not_masksAt {entries : Array Entry} {index : Nat} {constant : Instruction}
    {kind : ShiftKind} {isLong : IsLong} {value : Int32}
    (atIndex : entries[index]? = some (.instruction constant))
    (next : entries[index + 1]? = some (.instruction (.shift kind isLong)))
    (pushed : constant.intConstant? = some value)
    (notMasked : ∀ replacement, ¬ MasksAt entries index replacement) :
    value &&& (if isLong then 63 else 31) = value := by
  apply Classical.byContradiction
  intro changed
  obtain ⟨replacement, masked⟩ :=
    Option.isSome_iff_exists.mp (Instruction.maskedDistance?_isSome pushed changed)
  obtain ⟨value', pushed', changed', pushes⟩ :=
    Instruction.maskedDistance?_eq_some (shift_isMask isLong) masked
  exact notMasked replacement ⟨constant, kind, isLong, value', atIndex, next, pushed', changed', pushes⟩

/-- Nothing is left for a second run: the shift after a replaced constant stays, and the
masked constant is its own mask. -/
theorem replacementAt_maskShifts (body : Body) (index : Nat) (entry : Entry)
    (found : body.maskShifts.1.entries[index]? = some entry) :
    replacementAt body.maskShifts.1.entries index entry = none := by
  cases replacing : replacementAt body.maskShifts.1.entries index entry with
  | none => rfl
  | some replaced =>
    exfalso
    obtain ⟨-, -, constant, kind, isLong, value, atIndex, next, pushed, changed, -⟩ :=
      masksAt_of_replacementAt found replacing
    have shiftKept := shift_of_maskShifts next
    have inside : index < body.entries.size := by
      simpa using (Array.getElem?_eq_some_iff.mp atIndex).1
    rcases getElem?_maskShifts_cases body inside with ⟨replacement, masks, placed⟩ | ⟨notMasked, kept⟩
    · -- a replaced constant is already masked by the same shift
      obtain ⟨_, _, _, _, _, next', _, _, pushes⟩ := masks
      rw [shiftKept] at next'
      cases next'
      rw [placed] at atIndex
      cases atIndex
      rw [pushes.intConstant?] at pushed
      cases pushed
      exact changed (and_mask_and_mask _)
    · -- a constant left alone is one the mask keeps
      rw [kept] at atIndex
      exact changed (and_mask_eq_of_not_masksAt atIndex shiftKept pushed notMasked)

/-- A second run changes nothing and counts nothing. -/
theorem maskShifts_maskShifts (body : Body) :
    body.maskShifts.1.maskShifts = (body.maskShifts.1, 0) := by
  have untouched : ∀ index : Nat, body.maskShifts.1.maskShifts.1.entries[index]? =
      body.maskShifts.1.entries[index]? := by
    intro index
    rw [getElem?_maskShifts]
    cases found : body.maskShifts.1.entries[index]? with
    | none => rfl
    | some entry => rw [Option.map_some, replacementAt_maskShifts body index entry found]; rfl
  refine Prod.ext (Body.ext (Array.ext_getElem? untouched) (maskShifts_handlers _)) ?_
  rw [maskShifts_count]
  exact List.countP_eq_zero.mpr fun index _ => by simp [untouched index]

/-- **Masking shift distances.** The pass keeps the handlers and every position; at each position
it puts the masked constant that `MasksAt` describes, or leaves the entry as it was; it returns
the number of positions that changed; and a second run changes nothing and returns 0. -/
theorem maskShifts_masks_shift_constants (body : Body) :
    body.maskShifts.1.handlers = body.handlers ∧
    body.maskShifts.1.entries.size = body.entries.size ∧
    (∀ index < body.entries.size,
      (∃ replacement, MasksAt body.entries index replacement ∧
          body.maskShifts.1.entries[index]? = some (.instruction replacement)) ∨
        ((∀ replacement, ¬ MasksAt body.entries index replacement) ∧
          body.maskShifts.1.entries[index]? = body.entries[index]?)) ∧
    body.maskShifts.2 = (List.range body.entries.size).countP
      (fun index => body.maskShifts.1.entries[index]? != body.entries[index]?) ∧
    body.maskShifts.1.maskShifts = (body.maskShifts.1, 0) :=
  ⟨maskShifts_handlers body, size_maskShifts body, fun _ inside => getElem?_maskShifts_cases body inside,
    maskShifts_count body, maskShifts_maskShifts body⟩

/-- An `iconst_m1` before an `int` shift becomes `bipush 31`, and `bipush 40` becomes
`bipush 8`; the count is two. -/
example : (Body.mk #[.instruction (.load .int 0), .instruction (.iconst .minusOne),
      .instruction (.shift .left false), .instruction (.load .int 0), .instruction (.bipush 40),
      .instruction (.shift .arithmeticRight false)] []).maskShifts.2 = 2 ∧
    (Body.mk #[.instruction (.load .int 0), .instruction (.iconst .minusOne),
      .instruction (.shift .left false), .instruction (.load .int 0), .instruction (.bipush 40),
      .instruction (.shift .arithmeticRight false)] []).maskShifts.1.entries =
      #[.instruction (.load .int 0), .instruction (.bipush 31), .instruction (.shift .left false),
        .instruction (.load .int 0), .instruction (.bipush 8),
        .instruction (.shift .arithmeticRight false)] := by
  decide +kernel

end Body

end ClassKit
