import ClassKit.Patch.KeyLiterals
import ClassKit.Proofs.ShiftDistances

/-!
# Replacing the key literals

Both halves of the login key are `BigInteger` static fields built from decimal string literals
(`new`, `dup`, `ldc`, `invokespecial <init>`, `putstatic`). `Body.replaceKeyLiteral` swaps such a
literal for another text: at every `putstatic` of a `BigInteger` field with the key field's
name, when the entry two positions before it (labels counted) is a string `ldc`, it puts an
`ldc` of the new text there.

Main statement, `Body.replaceKeyLiteral_replaces_field_literals`: the pass keeps the handlers and
every position, puts the new literal at exactly the positions `Body.LiteralFeedsField` describes,
leaves every other entry as it was, and returns the number of those positions.

The class named by the `putstatic` is never compared with the class of the key field, so a
literal assigned to a field of the same name and type in another class is replaced as well
(`Body.replaceKeyLiteral_rewrites_other_class_literal`).
-/

namespace ClassKit

namespace Entry

variable {field : UnqualifiedName} {entry : Entry}

theorem pushesString_iff : entry.pushesString = true ↔ ∃ text, entry = .instruction (.ldc (.string text)) := by
  constructor
  · intro pushes
    -- the test has a wildcard case, so it is read constructor by constructor
    cases entry with
    | instruction instruction =>
      cases instruction with
      | ldc literal =>
        cases literal with
        | string text => exact ⟨text, rfl⟩
        | _ => cases pushes
      | _ => cases pushes
    | _ => cases pushes
  · rintro ⟨text, rfl⟩
    rfl

theorem assignsBigInteger_iff :
    entry.assignsBigInteger field = true ↔
      ∃ owner, entry = .instruction (.field .putStatic ⟨owner, field, .object BinaryName.bigInteger⟩) := by
  constructor
  · intro assigns
    cases entry with
    | instruction instruction =>
      cases instruction with
      | field access ref =>
        cases access with
        | putStatic =>
          obtain ⟨owner, name, descriptor⟩ := ref
          change (name == field && descriptor == FieldType.object BinaryName.bigInteger) = true at assigns
          rw [Bool.and_eq_true, beq_iff_eq, beq_iff_eq] at assigns
          obtain ⟨rfl, rfl⟩ := assigns
          exact ⟨owner, rfl⟩
        | _ => cases assigns
      | _ => cases assigns
    | _ => cases assigns
  · rintro ⟨owner, rfl⟩
    change (field == field && FieldType.object BinaryName.bigInteger == FieldType.object BinaryName.bigInteger) = true
    simp

end Entry

namespace Body

/-! ## Where a key literal stands -/

/-- Position `index` of `entries` holds a string `ldc`, and two positions later, labels counted,
stands a `putstatic` of a `BigInteger` field called `field`, of whatever class. -/
def LiteralFeedsField (entries : Array Entry) (field : UnqualifiedName) (index : Nat) : Prop :=
  (∃ text, entries[index]? = some (.instruction (.ldc (.string text)))) ∧
    ∃ owner, entries[index + 2]? =
      some (.instruction (.field .putStatic ⟨owner, field, .object BinaryName.bigInteger⟩))

/-- The test `LiteralFeedsField` stands for, entry by entry. -/
def literalFeedsField (entries : Array Entry) (field : UnqualifiedName) (index : Nat) : Bool :=
  entries[index]?.any Entry.pushesString && entries[index + 2]?.any (Entry.assignsBigInteger field)

theorem literalFeedsField_iff {entries : Array Entry} {field : UnqualifiedName} {index : Nat} :
    literalFeedsField entries field index = true ↔ LiteralFeedsField entries field index := by
  unfold literalFeedsField LiteralFeedsField
  rw [Bool.and_eq_true, Option.any_eq_true, Option.any_eq_true]
  apply and_congr
  · constructor
    · rintro ⟨entry, found, pushes⟩
      obtain ⟨text, rfl⟩ := Entry.pushesString_iff.mp pushes
      exact ⟨text, found⟩
    · rintro ⟨text, found⟩
      exact ⟨_, found, Entry.pushesString_iff.mpr ⟨text, rfl⟩⟩
  · constructor
    · rintro ⟨entry, found, assigns⟩
      obtain ⟨owner, rfl⟩ := Entry.assignsBigInteger_iff.mp assigns
      exact ⟨owner, found⟩
    · rintro ⟨owner, found⟩
      exact ⟨_, found, Entry.assignsBigInteger_iff.mpr ⟨owner, rfl⟩⟩

instance (entries : Array Entry) (field : UnqualifiedName) (index : Nat) :
    Decidable (LiteralFeedsField entries field index) :=
  decidable_of_iff _ literalFeedsField_iff

/-! ## The pass, position by position -/

section Replace

variable (body : Body) (location : FieldLocation) (value : String)

/-- The pass's own test at an entry it finds at `index` is `LiteralFeedsField`. -/
theorem replaces_iff {index : Nat} {entry : Entry} (found : body.entries[index]? = some entry) :
    (entry.pushesString &&
        ((body.entries[index + 2]?.map (·.assignsBigInteger location.field)) == some true)) = true ↔
      LiteralFeedsField body.entries location.field index := by
  rw [← literalFeedsField_iff, literalFeedsField, found, Option.any_some]
  cases body.entries[index + 2]? <;> simp

@[simp] theorem replaceKeyLiteral_handlers :
    (body.replaceKeyLiteral location value).1.handlers = body.handlers := rfl

@[simp] theorem size_replaceKeyLiteral :
    (body.replaceKeyLiteral location value).1.entries.size = body.entries.size := by
  simp [replaceKeyLiteral]

/-- Each position of the result holds the new literal where `LiteralFeedsField` holds, and the
entry that was there everywhere else. -/
theorem getElem?_replaceKeyLiteral (index : Nat) :
    (body.replaceKeyLiteral location value).1.entries[index]? =
      body.entries[index]?.map fun entry =>
        if LiteralFeedsField body.entries location.field index then .instruction (.ldc (.string value))
        else entry := by
  unfold replaceKeyLiteral
  dsimp only
  rw [Array.getElem?_map, Array.zip_eq_zipWith, Array.getElem?_zipWith, Array.getElem?_mapIdx]
  cases found : body.entries[index]? with
  | none => rfl
  | some entry =>
    simp only [Option.map_some]
    by_cases feeds : LiteralFeedsField body.entries location.field index
    · rw [if_pos ((replaces_iff body location found).mpr feeds), if_pos feeds]
    · rw [if_neg (fun replaced => feeds ((replaces_iff body location found).mp replaced)), if_neg feeds]

/-- The count is the number of positions `LiteralFeedsField` holds at. -/
theorem replaceKeyLiteral_count :
    (body.replaceKeyLiteral location value).2 =
      (List.range body.entries.size).countP
        fun index => decide (LiteralFeedsField body.entries location.field index) := by
  unfold replaceKeyLiteral
  dsimp only
  rw [← Array.countP_toList, countP_eq_countP_range]
  simp only [Array.length_toList, Array.size_mapIdx, Array.getElem?_toList]
  apply List.countP_congr
  intro index _
  rw [Array.getElem?_mapIdx]
  cases found : body.entries[index]? with
  | none =>
    -- past the end nothing is replaced, and no literal stands there
    have absent : ¬ LiteralFeedsField body.entries location.field index := by
      rintro ⟨⟨text, atIndex⟩, -⟩
      rw [found] at atIndex
      cases atIndex
    simp [absent]
  | some entry =>
    rw [Option.map_some, Option.any_some, id, decide_eq_true_iff]
    exact replaces_iff body location found

end Replace

/-- **Replacing the key literals.** The pass keeps the handlers and every position; it puts an
`ldc` of the new text at every position holding a string `ldc` two entries before a `putstatic`
of a `BigInteger` field with the key field's name, leaves every other entry as it was, and
returns the number of positions replaced. -/
theorem replaceKeyLiteral_replaces_field_literals (body : Body) (location : FieldLocation)
    (value : String) :
    (body.replaceKeyLiteral location value).1.handlers = body.handlers ∧
    (body.replaceKeyLiteral location value).1.entries.size = body.entries.size ∧
    (∀ index < body.entries.size,
      (LiteralFeedsField body.entries location.field index ∧
          (body.replaceKeyLiteral location value).1.entries[index]? =
            some (.instruction (.ldc (.string value)))) ∨
        (¬ LiteralFeedsField body.entries location.field index ∧
          (body.replaceKeyLiteral location value).1.entries[index]? = body.entries[index]?)) ∧
    (body.replaceKeyLiteral location value).2 =
      (List.range body.entries.size).countP
        (fun index => decide (LiteralFeedsField body.entries location.field index)) := by
  refine ⟨replaceKeyLiteral_handlers body location value, size_replaceKeyLiteral body location value,
    fun index inside => ?_, replaceKeyLiteral_count body location value⟩
  rw [getElem?_replaceKeyLiteral, Array.getElem?_eq_getElem inside, Option.map_some]
  by_cases feeds : LiteralFeedsField body.entries location.field index
  · exact .inl ⟨feeds, by rw [if_pos feeds]⟩
  · exact .inr ⟨feeds, by rw [if_neg feeds]⟩

/-- A class initializer that builds `other.n` and then `cb.n` from string literals. -/
def twoOwnerKeyBody : Body :=
  let bigInteger : RefType := .object BinaryName.bigInteger
  let construct : Instruction :=
    .invoke .special ⟨bigInteger, ⟨"<init>"⟩, ⟨[FieldType.object ⟨"java/lang/String"⟩], none⟩, false⟩
  { entries := #[.instruction (.typeOp .new bigInteger), .instruction (.stack .dup),
      .instruction (.ldc (.string "42")), .instruction construct,
      .instruction (.field .putStatic ⟨⟨"other"⟩, ⟨"n"⟩, .object BinaryName.bigInteger⟩),
      .instruction (.typeOp .new bigInteger), .instruction (.stack .dup),
      .instruction (.ldc (.string "9999")), .instruction construct,
      .instruction (.field .putStatic ⟨⟨"cb"⟩, ⟨"n"⟩, .object BinaryName.bigInteger⟩),
      .branch .returnVoid] }

/-- Replacing the literal of `cb.n` also replaces the literal `"42"` assigned to `other.n`: the
body assigns `cb.n` once, yet the pass counts two literals. -/
theorem replaceKeyLiteral_rewrites_other_class_literal :
    twoOwnerKeyBody.entries.count
        (.instruction (.field .putStatic ⟨⟨"cb"⟩, ⟨"n"⟩, .object BinaryName.bigInteger⟩)) = 1 ∧
      twoOwnerKeyBody.entries[2]? = some (.instruction (.ldc (.string "42"))) ∧
      twoOwnerKeyBody.entries[4]? =
        some (.instruction (.field .putStatic ⟨⟨"other"⟩, ⟨"n"⟩, .object BinaryName.bigInteger⟩)) ∧
      (twoOwnerKeyBody.replaceKeyLiteral ⟨⟨"cb"⟩, ⟨"n"⟩⟩ "123456789").2 = 2 ∧
      (twoOwnerKeyBody.replaceKeyLiteral ⟨⟨"cb"⟩, ⟨"n"⟩⟩ "123456789").1.entries[2]? =
        some (.instruction (.ldc (.string "123456789"))) := by
  decide +kernel

end Body

end ClassKit
