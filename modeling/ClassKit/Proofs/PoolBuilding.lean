import ClassKit.Pool.Builder
import ClassKit.Proofs.Outcome
import ClassKit.Proofs.PoolBytes
import ClassKit.Proofs.DescriptorRoundTrip
import Mathlib

/-!
# The pool builder agrees with the pool reader

Writing a class asks a pool under construction for indices: of texts, classes, strings,
name-and-type pairs, field and method references, and literals. Over any sequence of such
requests that all succeed:

* two requests get the same index exactly when they ask for the same value, a value being an
  entry with its references followed down to texts;
* the finished pool, written as bytes, reads back as itself, provided every text it holds takes
  at most 65535 bytes in modified UTF-8; the slot after a `long` or a `double` is unusable;
* resolving a returned index in the pool gives back the request, when its names and
  descriptors are valid.

The main statement is `builder_pool_agrees_with_reader`. Its proof follows the builder one
request at a time: `ConstantPool.Holds pool index value` says what an index stands for, and a
sound builder (`PoolBuilder.Sound`) keeps it through every later request (`Grows`).
-/

namespace ClassKit

/-! ## What an index stands for -/

/-- A pool entry with its references followed down to texts. -/
inductive PoolValue where
  | utf8 (text : String)
  | integer (value : Int32)
  | float (bits : UInt32)
  | long (value : Int64)
  | double (bits : UInt64)
  | classRef (name : String)
  | string (text : String)
  | nameAndType (name descriptor : String)
  | fieldRef (owner name descriptor : String)
  | methodRef (owner name descriptor : String) (isInterface : Bool)
  deriving DecidableEq

@[simp] theorem ok_bind {ε α β : Type} (value : α) (rest : α → Except ε β) :
    (Except.ok value >>= rest) = rest value := rfl

@[simp] theorem ok_map {ε α β : Type} (value : α) (f : α → β) :
    (f <$> Except.ok value : Except ε β) = .ok (f value) := rfl

@[simp] theorem ok_mapError {ε ε' α : Type} (value : α) (f : ε → ε') :
    (Except.ok value : Except ε α).mapError f = .ok value := rfl

namespace ConstantPool

/-- The entry at `index`, with the entries it refers to, holds `value`. -/
inductive Holds (pool : ConstantPool) : Nat → PoolValue → Prop
  | utf8 {index : Nat} {text : String} :
    pool.get index = .ok (.utf8 text) → Holds pool index (.utf8 text)
  | integer {index : Nat} {value : Int32} :
    pool.get index = .ok (.integer value) → Holds pool index (.integer value)
  | float {index : Nat} {bits : UInt32} :
    pool.get index = .ok (.float bits) → Holds pool index (.float bits)
  | long {index : Nat} {value : Int64} :
    pool.get index = .ok (.long value) → Holds pool index (.long value)
  | double {index : Nat} {bits : UInt64} :
    pool.get index = .ok (.double bits) → Holds pool index (.double bits)
  | classRef {index name : Nat} {text : String} :
    pool.get index = .ok (.classRef name) → Holds pool name (.utf8 text) →
      Holds pool index (.classRef text)
  | string {index entry : Nat} {text : String} :
    pool.get index = .ok (.string entry) → Holds pool entry (.utf8 text) →
      Holds pool index (.string text)
  | nameAndType {index name descriptor : Nat} {nameText descriptorText : String} :
    pool.get index = .ok (.nameAndType name descriptor) → Holds pool name (.utf8 nameText) →
      Holds pool descriptor (.utf8 descriptorText) →
      Holds pool index (.nameAndType nameText descriptorText)
  | fieldRef {index owner member : Nat} {ownerText name descriptor : String} :
    pool.get index = .ok (.fieldRef owner member) → Holds pool owner (.classRef ownerText) →
      Holds pool member (.nameAndType name descriptor) →
      Holds pool index (.fieldRef ownerText name descriptor)
  | methodRef {index owner member : Nat} {ownerText name descriptor : String}
      {isInterface : Bool} :
    pool.get index = .ok (.methodRef owner member isInterface) →
      Holds pool owner (.classRef ownerText) → Holds pool member (.nameAndType name descriptor) →
      Holds pool index (.methodRef ownerText name descriptor isInterface)

variable {pool pool' : ConstantPool}

theorem Holds.exists_get {index : Nat} {value : PoolValue} (holds : pool.Holds index value) :
    ∃ constant, pool.get index = .ok constant := by
  cases holds <;> exact ⟨_, by assumption⟩

/-- What an index stands for stays so in a pool that keeps every entry. -/
theorem Holds.mono (keeps : ∀ index constant, pool.get index = .ok constant →
      pool'.get index = .ok constant)
    {index : Nat} {value : PoolValue} (holds : pool.Holds index value) :
    pool'.Holds index value := by
  induction holds with
  | utf8 found => exact .utf8 (keeps _ _ found)
  | integer found => exact .integer (keeps _ _ found)
  | float found => exact .float (keeps _ _ found)
  | long found => exact .long (keeps _ _ found)
  | double found => exact .double (keeps _ _ found)
  | classRef found _ named => exact .classRef (keeps _ _ found) named
  | string found _ texted => exact .string (keeps _ _ found) texted
  | nameAndType found _ _ named described => exact .nameAndType (keeps _ _ found) named described
  | fieldRef found _ _ owned membered => exact .fieldRef (keeps _ _ found) owned membered
  | methodRef found _ _ owned membered => exact .methodRef (keeps _ _ found) owned membered

/-- An index stands for one value only. -/
theorem Holds.functional {index : Nat} {value other : PoolValue} (holds : pool.Holds index value)
    (also : pool.Holds index other) : value = other := by
  induction holds generalizing other with
  | utf8 found | integer found | float found | long found | double found =>
    cases also <;> simp_all
  | classRef found _ ih =>
    cases also
    case classRef named' found' =>
      rw [found, Except.ok.injEq, Constant.classRef.injEq] at found'
      subst found'
      cases ih named'
      rfl
    all_goals simp_all
  | string found _ ih =>
    cases also
    case string texted' found' =>
      rw [found, Except.ok.injEq, Constant.string.injEq] at found'
      subst found'
      cases ih texted'
      rfl
    all_goals simp_all
  | nameAndType found _ _ ihName ihDescriptor =>
    cases also
    case nameAndType named' described' found' =>
      rw [found, Except.ok.injEq, Constant.nameAndType.injEq] at found'
      obtain ⟨rfl, rfl⟩ := found'
      cases ihName named'
      cases ihDescriptor described'
      rfl
    all_goals simp_all
  | fieldRef found _ _ ihOwner ihMember =>
    cases also
    case fieldRef owned' membered' found' =>
      rw [found, Except.ok.injEq, Constant.fieldRef.injEq] at found'
      obtain ⟨rfl, rfl⟩ := found'
      cases ihOwner owned'
      cases ihMember membered'
      rfl
    all_goals simp_all
  | methodRef found _ _ ihOwner ihMember =>
    cases also
    case methodRef owned' membered' found' =>
      rw [found, Except.ok.injEq, Constant.methodRef.injEq] at found'
      obtain ⟨rfl, rfl, rfl⟩ := found'
      cases ihOwner owned'
      cases ihMember membered'
      rfl
    all_goals simp_all

/-- In a pool that holds each entry at one index only, a value is held at one index only. -/
theorem Holds.unique (distinct : ∀ index index' constant, pool.get index = .ok constant →
      pool.get index' = .ok constant → index = index')
    {index index' : Nat} {value : PoolValue} (holds : pool.Holds index value)
    (also : pool.Holds index' value) : index = index' := by
  induction holds generalizing index' with
  | utf8 found => cases also with | utf8 found' => exact distinct _ _ _ found found'
  | integer found => cases also with | integer found' => exact distinct _ _ _ found found'
  | float found => cases also with | float found' => exact distinct _ _ _ found found'
  | long found => cases also with | long found' => exact distinct _ _ _ found found'
  | double found => cases also with | double found' => exact distinct _ _ _ found found'
  | classRef found _ ih =>
    cases also with
    | classRef found' named' =>
      cases ih named'
      exact distinct _ _ _ found found'
  | string found _ ih =>
    cases also with
    | string found' texted' =>
      cases ih texted'
      exact distinct _ _ _ found found'
  | nameAndType found _ _ ihName ihDescriptor =>
    cases also with
    | nameAndType found' named' described' =>
      cases ihName named'
      cases ihDescriptor described'
      exact distinct _ _ _ found found'
  | fieldRef found _ _ ihOwner ihMember =>
    cases also with
    | fieldRef found' owned' membered' =>
      cases ihOwner owned'
      cases ihMember membered'
      exact distinct _ _ _ found found'
  | methodRef found _ _ ihOwner ihMember =>
    cases also with
    | methodRef found' owned' membered' =>
      cases ihOwner owned'
      cases ihMember membered'
      exact distinct _ _ _ found found'

/-! ## Resolving what an index stands for -/

theorem Holds.utf8_eq {index : Nat} {text : String} (holds : pool.Holds index (.utf8 text)) :
    pool.utf8 index = .ok text := by
  cases holds with
  | utf8 found => simp [ConstantPool.utf8, found, bind, Except.bind, pure, Except.pure]

theorem Holds.classText_eq {index : Nat} {text : String}
    (holds : pool.Holds index (.classRef text)) : pool.classText index = .ok text := by
  cases holds with
  | classRef found named =>
    simp [ConstantPool.classText, found, named.utf8_eq, bind, Except.bind]

theorem Holds.nameAndType_eq {index : Nat} {name descriptor : String}
    (holds : pool.Holds index (.nameAndType name descriptor)) :
    pool.nameAndType index = .ok (name, descriptor) := by
  cases holds with
  | nameAndType found named described =>
    simp [ConstantPool.nameAndType, found, named.utf8_eq, described.utf8_eq, bind, Except.bind,
      pure, Except.pure]

theorem Holds.binaryName_eq {index : Nat} {name : BinaryName}
    (holds : pool.Holds index (.classRef name.text)) (valid : name.Valid) :
    pool.binaryName index = .ok name := by
  rw [ConstantPool.binaryName, holds.classText_eq, ok_bind, valid.ofString, ok_mapError]

theorem Holds.refType_eq {index : Nat} {type : RefType}
    (holds : pool.Holds index (.classRef type.classConstantText)) (valid : type.Valid) :
    pool.refType index = .ok type := by
  rw [ConstantPool.refType, holds.classText_eq, ok_bind, RefType.ofClassText_classConstantText valid]

theorem Holds.fieldRef_eq {index : Nat} {ref : FieldRef}
    (holds : pool.Holds index (.fieldRef ref.owner.text ref.name.text ref.descriptor.render))
    (valid : ref.owner.Valid ∧ ref.name.Valid ∧ ref.descriptor.Valid) :
    pool.fieldRef index = .ok ref := by
  obtain ⟨ownerValid, nameValid, descriptorValid⟩ := valid
  cases holds with
  | fieldRef found owned membered =>
    rw [ConstantPool.fieldRef, found]
    simp only [ok_bind, membered.nameAndType_eq, owned.binaryName_eq ownerValid, checkedName,
      nameValid.ofString, checkedFieldType, FieldType.parse_render descriptorValid, ok_mapError]
    rfl

theorem Holds.methodRef_eq {index : Nat} {ref : MethodRef}
    (holds : pool.Holds index
      (.methodRef ref.owner.classConstantText ref.name.text ref.descriptor.render ref.isInterface))
    (valid : ref.owner.Valid ∧ ref.name.Valid ∧ ref.descriptor.Valid) :
    pool.methodRef index = .ok ref := by
  obtain ⟨ownerValid, nameValid, descriptorValid⟩ := valid
  cases holds with
  | methodRef found owned membered =>
    rw [ConstantPool.methodRef, found]
    simp only [ok_bind, membered.nameAndType_eq, owned.refType_eq ownerValid, checkedName,
      nameValid.ofString, checkedMethodDescriptor, MethodDescriptor.parse_render descriptorValid,
      ok_mapError]
    rfl

theorem Holds.literal_string {index : Nat} {text : String}
    (holds : pool.Holds index (.string text)) : pool.literal index = .ok (.string text) := by
  cases holds with
  | string found texted =>
    rw [ConstantPool.literal, found, ok_bind]
    show Literal.string <$> pool.utf8 _ = _
    rw [texted.utf8_eq, ok_map]

theorem Holds.literal_classRef {index : Nat} {type : RefType}
    (holds : pool.Holds index (.classRef type.classConstantText)) (valid : type.Valid) :
    pool.literal index = .ok (.classRef type) := by
  have named : ∃ name, pool.get index = .ok (.classRef name) := by
    cases holds with
    | classRef found _ => exact ⟨_, found⟩
  obtain ⟨name, found⟩ := named
  rw [ConstantPool.literal, found, ok_bind]
  show Literal.classRef <$> pool.refType index = _
  rw [holds.refType_eq valid, ok_map]

/-! ## Laying out one more entry -/

theorem get_lt_size {index : Nat} {constant : Constant} (found : pool.get index = .ok constant) :
    index < pool.entries.size := by
  by_contra outside
  simp [ConstantPool.get, Array.getElem?_eq_none (Nat.le_of_not_lt outside)] at found

theorem length_slotsOf (constant : Constant) : (slotsOf constant).length = constant.width := by
  cases constant <;> simp [slotsOf, Constant.width]

theorem entries_ofConstants_push (constants : Array Constant) (constant : Constant) :
    (ofConstants (constants.push constant)).entries =
      (ofConstants constants).entries ++ (slotsOf constant).toArray := by
  apply Array.toList_inj.mp
  simp [entries_ofConstants]

/-- An entry laid out after the others takes the next index; the indices before it keep their
entries, and the slot after a wide one is unusable. -/
theorem get_ofConstants_push (constants : Array Constant) (constant : Constant) (index : Nat) :
    (ofConstants (constants.push constant)).get index =
      if index < (ofConstants constants).entries.size then (ofConstants constants).get index
      else if index = (ofConstants constants).entries.size then .ok constant
      else .error (.badConstantIndex index) := by
  unfold ConstantPool.get
  rw [entries_ofConstants_push, Array.getElem?_append]
  by_cases inside : index < (ofConstants constants).entries.size
  · simp only [if_pos inside]
  · rw [if_neg inside, if_neg inside]
    by_cases atEnd : index = (ofConstants constants).entries.size
    · simp [atEnd, slotsOf]
    · -- past the new entry there is at most the unusable slot of a wide one
      have offset : index - (ofConstants constants).entries.size =
          (index - (ofConstants constants).entries.size - 1) + 1 := by omega
      rw [if_neg atEnd, offset]
      generalize index - (ofConstants constants).entries.size - 1 = later
      by_cases wide : constant.width = 2 <;> cases later <;> simp [slotsOf, wide]

/-- In the slots laid out for a list of entries, a wide entry is followed by an unusable slot. -/
theorem flatMap_slotsOf_wide (constants : List Constant) {index : Nat} {constant : Constant}
    (found : (constants.flatMap slotsOf)[index]? = some (some constant))
    (wide : constant.width = 2) : (constants.flatMap slotsOf)[index + 1]? = some none := by
  induction constants generalizing index with
  | nil => simp at found
  | cons first rest ih =>
    rw [List.flatMap_cons] at found ⊢
    by_cases firstWide : first.width = 2
    · have slots : slotsOf first = [some first, none] := by simp [slotsOf, firstWide]
      rw [slots] at found ⊢
      rcases index with _ | _ | index
      · rfl
      · simp at found
      · exact ih (by simpa using found)
    · have slots : slotsOf first = [some first] := by simp [slotsOf, firstWide]
      rw [slots] at found ⊢
      rcases index with _ | index
      · simp only [List.cons_append, List.nil_append, List.getElem?_cons_zero, Option.some.injEq]
          at found
        exact absurd (found ▸ wide) firstWide
      · exact ih (by simpa using found)

/-- The slot after a wide entry of a laid-out pool is present and unusable. -/
theorem ofConstants_wide {constants : Array Constant} {index : Nat} {constant : Constant}
    (found : (ofConstants constants).get index = .ok constant) (wide : constant.width = 2) :
    (ofConstants constants).entries[index + 1]? = some none := by
  have slot : (ofConstants constants).entries[index]? = some (some constant) := by
    unfold ConstantPool.get at found
    split at found <;> simp_all
  rw [← Array.getElem?_toList, entries_ofConstants] at slot ⊢
  rcases index with _ | index
  · simp at slot
  · exact flatMap_slotsOf_wide constants.toList (by simpa using slot) wide

end ConstantPool

/-! ## The builder -/

/-- A successful request, taken apart at a `bind`. -/
theorem PoolM.run_bind_eq_ok {α β : Type} {first : PoolM α} {rest : α → PoolM β}
    {builder builder' : PoolBuilder} {value : β}
    (ran : (first >>= rest).run.run builder = (.ok value, builder')) :
    ∃ middle between, first.run.run builder = (.ok middle, between) ∧
      (rest middle).run.run between = (.ok value, builder') := by
  rw [run_run_bind] at ran
  cases found : first.run.run builder with
  | mk result between =>
    rw [found] at ran
    cases result with
    | error err => cases ran
    | ok middle => exact ⟨middle, between, rfl, ran⟩

namespace PoolBuilder

open ConstantPool

section Intern

variable {constant : Constant} {builder : PoolBuilder}

theorem run_get : (MonadState.get : PoolM PoolBuilder).run.run builder = (.ok builder, builder) :=
  rfl

/-- `intern` of a known entry returns its index and leaves the builder as it is. -/
theorem run_intern_known {index : Nat} (known : builder.known[constant]? = some index) :
    (intern constant).run.run builder = (.ok index, builder) := by
  unfold intern
  rw [run_run_bind, run_get]
  dsimp only
  rw [known]
  rfl

/-- `intern` of a new entry lays it out at the next index, while indices stay below 65535. -/
theorem run_intern_new (unknown : builder.known[constant]? = none)
    (room : builder.nextIndex + constant.width < 65535) :
    (intern constant).run.run builder = (.ok builder.nextIndex,
      ⟨builder.constants.push constant, builder.nextIndex + constant.width,
        builder.known.insert constant builder.nextIndex⟩) := by
  unfold intern
  rw [run_run_bind, run_get]
  dsimp only
  rw [unknown]
  dsimp only
  rw [if_pos room, run_run_bind]
  rfl

/-- `intern` of a new entry that would reach index 65535 fails with `poolOverflow`. -/
theorem run_intern_overflow (unknown : builder.known[constant]? = none)
    (full : ¬ builder.nextIndex + constant.width < 65535) :
    (intern constant).run.run builder =
      (.error (.poolOverflow constant builder.nextIndex), builder) := by
  unfold intern
  rw [run_run_bind, run_get]
  dsimp only
  rw [unknown]
  dsimp only
  rw [if_neg full]
  rfl

/-- A successful `intern` either found the entry already known, or laid it out at the next
index. -/
theorem intern_eq_ok {builder' : PoolBuilder} {index : Nat}
    (ran : (intern constant).run.run builder = (.ok index, builder')) :
    builder.known[constant]? = some index ∧ builder' = builder ∨
      builder.known[constant]? = none ∧ builder.nextIndex + constant.width < 65535 ∧
        index = builder.nextIndex ∧
        builder' = ⟨builder.constants.push constant, builder.nextIndex + constant.width,
          builder.known.insert constant builder.nextIndex⟩ := by
  cases found : builder.known[constant]? with
  | some existing =>
    rw [run_intern_known found, Prod.mk.injEq, Except.ok.injEq] at ran
    exact Or.inl ⟨congrArg some ran.1, ran.2.symm⟩
  | none =>
    by_cases room : builder.nextIndex + constant.width < 65535
    · rw [run_intern_new found room, Prod.mk.injEq, Except.ok.injEq] at ran
      exact Or.inr ⟨rfl, room, ran.1.symm, ran.2.symm⟩
    · rw [run_intern_overflow found room] at ran
      cases ran

end Intern

/-- What every builder reached by successful requests keeps: one slot for each index handed out
so far, a next index below 65535, the index of exactly the entries of its pool, and entries
that the format can hold, texts apart. -/
structure Sound (builder : PoolBuilder) : Prop where
  size : builder.toPool.entries.size = builder.nextIndex
  below : builder.nextIndex < 65535
  known : ∀ constant index, builder.known[constant]? = some index ↔
    builder.toPool.get index = .ok constant
  fits : ∀ constant ∈ builder.constants.toList, (∀ text, constant ≠ .utf8 text) → constant.Fits

theorem Sound.empty : Sound {} where
  size := rfl
  below := by decide
  known constant index := by
    have nothing : ({} : PoolBuilder).toPool.get index ≠ .ok constant := by
      cases index <;> simp [toPool, ConstantPool.get, ofConstants]
    exact ⟨fun found => by simp at found, fun found => absurd found nothing⟩
  fits := by simp

variable {builder builder' : PoolBuilder}

/-- Each entry of a sound builder's pool sits at one index only. -/
theorem Sound.distinct (sound : builder.Sound) {index index' : Nat} {constant : Constant}
    (found : builder.toPool.get index = .ok constant)
    (also : builder.toPool.get index' = .ok constant) : index = index' := by
  have first := (sound.known constant index).mpr found
  rw [(sound.known constant index').mpr also, Option.some.injEq] at first
  exact first.symm

/-- A reference to an entry of a sound builder's pool fits in 16 bits. -/
theorem Sound.index_lt (sound : builder.Sound) {index : Nat} {constant : Constant}
    (found : builder.toPool.get index = .ok constant) : index < 65536 := by
  have inside := get_lt_size found
  have := sound.size
  have := sound.below
  omega

/-- In the pool of a sound builder with one more entry pushed, the old entries keep their
indices, the new one sits at the next index, and nothing lies beyond it. -/
theorem Sound.get_push (sound : builder.Sound) (constant : Constant) (other : Nat) :
    (ofConstants (builder.constants.push constant)).get other =
      if other < builder.nextIndex then builder.toPool.get other
      else if other = builder.nextIndex then .ok constant
      else .error (.badConstantIndex other) := by
  have size := sound.size
  unfold toPool at size
  rw [get_ofConstants_push, size]
  rfl

/-- Once a constant a sound builder does not know is pushed at the next index, the table of
known entries, with it added there, still gives exactly the index where the pool holds each
entry. -/
theorem Sound.known_push (sound : builder.Sound) {constant : Constant}
    (unknown : builder.known[constant]? = none) (entry : Constant) (other : Nat) :
    (builder.known.insert constant builder.nextIndex)[entry]? = some other ↔
      (ofConstants (builder.constants.push constant)).get other = .ok entry := by
  -- the new entry was nowhere in the pool, since the builder did not know it
  have absent : ∀ other, builder.toPool.get other ≠ .ok constant := fun other found => by
    rw [(sound.known constant other).mpr found] at unknown
    cases unknown
  have before : ∀ entry other, builder.known[entry]? = some other → other < builder.nextIndex :=
    fun entry other found => sound.size ▸ get_lt_size ((sound.known entry other).mp found)
  rw [Std.HashMap.getElem?_insert, sound.get_push]
  -- the new entry answers at the next index, the old ones below it, nothing above
  rcases Nat.lt_trichotomy other builder.nextIndex with inside | rfl | outside
  · by_cases same : constant = entry
    · subst same
      simpa [inside.ne', inside] using absent other
    · simp [same, inside, sound.known]
  · by_cases same : constant = entry
    · simp [same]
    · simp only [same, beq_iff_eq, if_false, Nat.lt_irrefl, if_true, Except.ok.injEq]
      exact ⟨fun found => absurd (before _ _ found) (Nat.lt_irrefl _), fun found => found.elim⟩
  · have notInside : ¬ other < builder.nextIndex := by omega
    by_cases same : constant = entry
    · simp [same, notInside, outside.ne, outside.ne']
    · simp only [same, beq_iff_eq, if_false, notInside, outside.ne', reduceCtorEq, iff_false]
      exact fun found => notInside (before _ _ found)

/-- `intern` keeps a builder sound and every entry in place, and adds at most its own entry. -/
theorem Sound.intern (sound : builder.Sound) {constant : Constant} {index : Nat}
    (fits : (∀ text, constant ≠ .utf8 text) → constant.Fits)
    (ran : (intern constant).run.run builder = (.ok index, builder')) :
    builder'.Sound ∧
      (∀ other entry, builder.toPool.get other = .ok entry →
        builder'.toPool.get other = .ok entry) ∧
      (∀ entry ∈ builder'.constants.toList, entry ∈ builder.constants.toList ∨ entry = constant) ∧
      builder'.toPool.get index = .ok constant := by
  rcases intern_eq_ok ran with ⟨known, rfl⟩ | ⟨unknown, room, rfl, rfl⟩
  · exact ⟨sound, fun _ _ found => found, fun entry member => Or.inl member,
      (sound.known constant index).mp known⟩
  · refine ⟨⟨?_, room, sound.known_push unknown, fun entry member notText => ?_⟩, ?_, ?_, ?_⟩
    · have size := sound.size
      unfold toPool at size
      show (ofConstants (builder.constants.push constant)).entries.size = _
      rw [entries_ofConstants_push]
      simp [size, length_slotsOf]
    · rcases Array.mem_push.mp (Array.mem_toList_iff.mp member) with old | rfl
      · exact sound.fits entry (Array.mem_toList_iff.mpr old) notText
      · exact fits notText
    · intro other entry found
      show (ofConstants (builder.constants.push constant)).get other = _
      rw [sound.get_push, if_pos (sound.size ▸ get_lt_size found)]
      exact found
    · intro entry member
      rcases Array.mem_push.mp (Array.mem_toList_iff.mp member) with old | rfl
      · exact Or.inl (Array.mem_toList_iff.mpr old)
      · exact Or.inr rfl
    · show (ofConstants (builder.constants.push constant)).get builder.nextIndex = _
      rw [sound.get_push]
      simp

/-- An index that stands for a value in a sound builder's pool fits in 16 bits. -/
theorem Sound.holds_lt (sound : builder.Sound) {index : Nat} {value : PoolValue}
    (holds : builder.toPool.Holds index value) : index < 65536 :=
  let ⟨_, found⟩ := holds.exists_get
  sound.index_lt found

/-! ## Growing the builder -/

/-- The builder after some requests, against the builder before them: still sound, every entry
in place, and Utf8 entries added only for `texts`. -/
structure Grows (builder builder' : PoolBuilder) (texts : List String) : Prop where
  sound : builder'.Sound
  keeps : ∀ index constant, builder.toPool.get index = .ok constant →
    builder'.toPool.get index = .ok constant
  newTexts : ∀ text, Constant.utf8 text ∈ builder'.constants.toList →
    Constant.utf8 text ∈ builder.constants.toList ∨ text ∈ texts

variable {texts texts' : List String}

theorem Grows.refl (sound : builder.Sound) (texts : List String) : Grows builder builder texts :=
  ⟨sound, fun _ _ found => found, fun _ member => Or.inl member⟩

theorem Grows.trans {builder'' : PoolBuilder} (first : Grows builder builder' texts)
    (second : Grows builder' builder'' texts') : Grows builder builder'' (texts ++ texts') where
  sound := second.sound
  keeps index constant found := second.keeps _ _ (first.keeps _ _ found)
  newTexts text member := by
    rcases second.newTexts text member with old | listed
    · rcases first.newTexts text old with older | listed
      · exact Or.inl older
      · exact Or.inr (List.mem_append_left _ listed)
    · exact Or.inr (List.mem_append_right _ listed)

theorem Grows.widen (grows : Grows builder builder' texts) (sub : texts ⊆ texts') :
    Grows builder builder' texts' :=
  ⟨grows.sound, grows.keeps, fun text member => (grows.newTexts text member).imp_right (sub ·)⟩

theorem Grows.holds (grows : Grows builder builder' texts) {index : Nat} {value : PoolValue}
    (holds : builder.toPool.Holds index value) : builder'.toPool.Holds index value :=
  holds.mono grows.keeps

/-- `intern` grows a sound builder, adding a Utf8 entry only for a text of `texts`. -/
theorem Sound.intern_grows (sound : builder.Sound) {constant : Constant} {index : Nat}
    (ran : (PoolBuilder.intern constant).run.run builder = (.ok index, builder'))
    (fits : (∀ text, constant ≠ .utf8 text) → constant.Fits)
    (listed : ∀ text, constant = .utf8 text → text ∈ texts) :
    Grows builder builder' texts ∧ builder'.toPool.get index = .ok constant := by
  obtain ⟨sound', keeps, added, found⟩ := sound.intern fits ran
  refine ⟨⟨sound', keeps, fun text member => ?_⟩, found⟩
  rcases added _ member with old | same
  · exact Or.inl old
  · exact Or.inr (listed text same.symm)

/-- `intern` of an entry other than a text grows a sound builder by that entry at most. -/
theorem Sound.intern_entry (sound : builder.Sound) {constant : Constant} {index : Nat}
    (ran : (PoolBuilder.intern constant).run.run builder = (.ok index, builder'))
    (fits : constant.Fits) (notText : ∀ text, constant ≠ .utf8 text) :
    Grows builder builder' [] ∧ builder'.toPool.get index = .ok constant :=
  sound.intern_grows ran (fun _ => fits) (fun text same => absurd same (notText text))

/-- A request that, run on any sound builder and succeeding, grows it adding Utf8 entries for
`texts` only, and returns an index that stands for `value`. -/
def Serves (request : PoolM Nat) (value : PoolValue) (texts : List String) : Prop :=
  ∀ builder builder' index, builder.Sound → request.run.run builder = (.ok index, builder') →
    Grows builder builder' texts ∧ builder'.toPool.Holds index value

theorem serves_utf8 (text : String) : Serves (utf8 text) (.utf8 text) [text] := by
  intro builder builder' index sound ran
  obtain ⟨grows, found⟩ := sound.intern_grows ran (fun notText => absurd rfl (notText text))
    (fun _ same => List.mem_singleton.mpr (Constant.utf8.inj same).symm)
  exact ⟨grows, .utf8 found⟩

/-- An entry that refers to no other is served by `intern` alone. -/
theorem serves_intern {constant : Constant} {value : PoolValue} (fits : constant.Fits)
    (notText : ∀ text, constant ≠ .utf8 text)
    (holds : ∀ (pool : ConstantPool) index, pool.get index = .ok constant → pool.Holds index value) :
    Serves (intern constant) value [] := by
  intro builder builder' index sound ran
  obtain ⟨grows, found⟩ := sound.intern_entry ran fits notText
  exact ⟨grows, holds _ _ found⟩

/-- An entry referring to the index another request returns is served by that request followed
by `intern`. -/
theorem Serves.intern_ref {first : PoolM Nat} {value value' : PoolValue} {texts : List String}
    (served : Serves first value texts) (entry : Nat → Constant)
    (fits : ∀ index, index < 65536 → (entry index).Fits)
    (notText : ∀ index text, entry index ≠ .utf8 text)
    (holds : ∀ (pool : ConstantPool) index referred, pool.get index = .ok (entry referred) →
      pool.Holds referred value → pool.Holds index value') :
    Serves (first >>= fun referred => intern (entry referred)) value' texts := by
  intro builder builder' index sound ran
  obtain ⟨referred, between, firstRan, interned⟩ := PoolM.run_bind_eq_ok ran
  obtain ⟨grown, holdsReferred⟩ := served builder between referred sound firstRan
  obtain ⟨grownEntry, found⟩ := grown.sound.intern_entry interned
    (fits _ (grown.sound.holds_lt holdsReferred)) (notText referred)
  exact ⟨(grown.trans grownEntry).widen (by simp),
    holds _ _ _ found (grownEntry.holds holdsReferred)⟩

/-- An entry referring to the indices two requests return is served by those requests, one
after the other, followed by `intern`. -/
theorem Serves.intern_refs {first second : PoolM Nat} {value value' value'' : PoolValue}
    {texts texts' : List String} (servedFirst : Serves first value texts)
    (servedSecond : Serves second value' texts') (entry : Nat → Nat → Constant)
    (fits : ∀ index index', index < 65536 → index' < 65536 → (entry index index').Fits)
    (notText : ∀ index index' text, entry index index' ≠ .utf8 text)
    (holds : ∀ (pool : ConstantPool) index referred referred',
      pool.get index = .ok (entry referred referred') → pool.Holds referred value →
        pool.Holds referred' value' → pool.Holds index value'') :
    Serves (first >>= fun referred => second >>= fun referred' => intern (entry referred referred'))
      value'' (texts ++ texts') := by
  intro builder builder' index sound ran
  obtain ⟨referred, afterFirst, firstRan, rest⟩ := PoolM.run_bind_eq_ok ran
  obtain ⟨referred', afterSecond, secondRan, interned⟩ := PoolM.run_bind_eq_ok rest
  obtain ⟨grownFirst, holdsFirst⟩ := servedFirst builder afterFirst referred sound firstRan
  obtain ⟨grownSecond, holdsSecond⟩ :=
    servedSecond afterFirst afterSecond referred' grownFirst.sound secondRan
  -- the first index still stands for its value once the second request has run
  have holdsFirst' := grownSecond.holds holdsFirst
  obtain ⟨grownEntry, found⟩ := grownSecond.sound.intern_entry interned
    (fits _ _ (grownSecond.sound.holds_lt holdsFirst') (grownSecond.sound.holds_lt holdsSecond))
    (notText referred referred')
  exact ⟨((grownFirst.trans grownSecond).trans grownEntry).widen (by simp),
    holds _ _ _ _ found (grownEntry.holds holdsFirst') (grownEntry.holds holdsSecond)⟩

theorem serves_classText (text : String) : Serves (classText text) (.classRef text) [text] :=
  (serves_utf8 text).intern_ref Constant.classRef (fun _ small => small) (by simp)
    fun _ _ _ => .classRef

theorem serves_binaryName (name : BinaryName) :
    Serves (binaryName name) (.classRef name.text) [name.text] :=
  serves_classText name.text

theorem serves_refType (type : RefType) :
    Serves (refType type) (.classRef type.classConstantText) [type.classConstantText] :=
  serves_classText type.classConstantText

theorem serves_string (text : String) : Serves (string text) (.string text) [text] :=
  (serves_utf8 text).intern_ref Constant.string (fun _ small => small) (by simp)
    fun _ _ _ => .string

theorem serves_nameAndType (name descriptor : String) :
    Serves (nameAndType name descriptor) (.nameAndType name descriptor) [name, descriptor] :=
  (serves_utf8 name).intern_refs (serves_utf8 descriptor) Constant.nameAndType
    (fun _ _ small small' => ⟨small, small'⟩) (by simp) fun _ _ _ _ => .nameAndType

theorem serves_fieldRef (ref : FieldRef) :
    Serves (fieldRef ref) (.fieldRef ref.owner.text ref.name.text ref.descriptor.render)
      [ref.owner.text, ref.name.text, ref.descriptor.render] :=
  (serves_binaryName ref.owner).intern_refs (serves_nameAndType _ _) Constant.fieldRef
    (fun _ _ small small' => ⟨small, small'⟩) (by simp) fun _ _ _ _ => .fieldRef

theorem serves_methodRef (ref : MethodRef) :
    Serves (methodRef ref)
      (.methodRef ref.owner.classConstantText ref.name.text ref.descriptor.render ref.isInterface)
      [ref.owner.classConstantText, ref.name.text, ref.descriptor.render] :=
  (serves_refType ref.owner).intern_refs (serves_nameAndType _ _)
    (fun owner member => .methodRef owner member ref.isInterface)
    (fun _ _ small small' => ⟨small, small'⟩) (by simp) fun _ _ _ _ => .methodRef

end PoolBuilder

/-! ## Requests -/

/-- One call to the pool builder, with what it asks for. -/
inductive PoolRequest where
  | utf8 (text : String)
  | classRef (name : BinaryName)
  | refType (type : RefType)
  | string (text : String)
  | nameAndType (name descriptor : String)
  | fieldRef (ref : FieldRef)
  | methodRef (ref : MethodRef)
  | literal (data : Literal)

namespace PoolRequest

/-- The builder call that serves the request. -/
def run : PoolRequest → PoolM Nat
  | utf8 text => PoolBuilder.utf8 text
  | classRef name => PoolBuilder.binaryName name
  | refType type => PoolBuilder.refType type
  | string text => PoolBuilder.string text
  | nameAndType name descriptor => PoolBuilder.nameAndType name descriptor
  | fieldRef ref => PoolBuilder.fieldRef ref
  | methodRef ref => PoolBuilder.methodRef ref
  | literal data => PoolBuilder.literal data

/-- The value a request asks for. Classes are named by their class constant text, so a class,
the object type of that class and a class literal for it ask for one value; floats and doubles
are compared by their bits. -/
def value : PoolRequest → PoolValue
  | utf8 text => .utf8 text
  | classRef name => .classRef name.text
  | refType type => .classRef type.classConstantText
  | string text => .string text
  | nameAndType name descriptor => .nameAndType name descriptor
  | fieldRef ref => .fieldRef ref.owner.text ref.name.text ref.descriptor.render
  | methodRef ref =>
    .methodRef ref.owner.classConstantText ref.name.text ref.descriptor.render ref.isInterface
  | literal (.integer value) => .integer value
  | literal (.float bits) => .float bits
  | literal (.long value) => .long value
  | literal (.double bits) => .double bits
  | literal (.string text) => .string text
  | literal (.classRef type) => .classRef type.classConstantText

/-- The texts a request may add to the pool as Utf8 entries. -/
def texts : PoolRequest → List String
  | utf8 text | string text | literal (.string text) => [text]
  | classRef name => [name.text]
  | refType type | literal (.classRef type) => [type.classConstantText]
  | nameAndType name descriptor => [name, descriptor]
  | fieldRef ref => [ref.owner.text, ref.name.text, ref.descriptor.render]
  | methodRef ref => [ref.owner.classConstantText, ref.name.text, ref.descriptor.render]
  | literal _ => []

/-- The names and descriptors a request carries are well formed. -/
def Valid : PoolRequest → Prop
  | classRef name => name.Valid
  | refType type | literal (.classRef type) => type.Valid
  | fieldRef ref => ref.owner.Valid ∧ ref.name.Valid ∧ ref.descriptor.Valid
  | methodRef ref => ref.owner.Valid ∧ ref.name.Valid ∧ ref.descriptor.Valid
  | _ => True

instance (request : PoolRequest) : Decidable request.Valid := by
  unfold Valid
  split <;> infer_instance

/-- Resolving `index` in `pool` as the kind of entry the request asked for gives the request
back. -/
def Resolves (pool : ConstantPool) (index : Nat) : PoolRequest → Prop
  | utf8 text => pool.utf8 index = .ok text
  | classRef name => pool.binaryName index = .ok name
  | refType type => pool.refType index = .ok type
  | string text => pool.literal index = .ok (.string text)
  | nameAndType name descriptor => pool.nameAndType index = .ok (name, descriptor)
  | fieldRef ref => pool.fieldRef index = .ok ref
  | methodRef ref => pool.methodRef index = .ok ref
  | literal data => pool.literal index = .ok data

open PoolBuilder in
/-- Each request is served: it returns an index standing for its value. -/
theorem serves (request : PoolRequest) : Serves request.run request.value request.texts := by
  cases request with
  | utf8 text => exact serves_utf8 text
  | classRef name => exact serves_binaryName name
  | refType type => exact serves_refType type
  | string text => exact serves_string text
  | nameAndType name descriptor => exact serves_nameAndType name descriptor
  | fieldRef ref => exact serves_fieldRef ref
  | methodRef ref => exact serves_methodRef ref
  | literal data =>
    cases data with
    | integer value => exact serves_intern trivial (by simp) fun _ _ => .integer
    | float bits => exact serves_intern trivial (by simp) fun _ _ => .float
    | long value => exact serves_intern trivial (by simp) fun _ _ => .long
    | double bits => exact serves_intern trivial (by simp) fun _ _ => .double
    | string text => exact serves_string text
    | classRef type => exact serves_refType type

/-- An index standing for a valid request's value resolves to the request. -/
theorem resolves {pool : ConstantPool} {index : Nat} {request : PoolRequest}
    (valid : request.Valid) (holds : pool.Holds index request.value) :
    request.Resolves pool index := by
  cases request with
  | utf8 text => exact holds.utf8_eq
  | classRef name => exact holds.binaryName_eq valid
  | refType type => exact holds.refType_eq valid
  | string text => exact holds.literal_string
  | nameAndType name descriptor => exact holds.nameAndType_eq
  | fieldRef ref => exact holds.fieldRef_eq valid
  | methodRef ref => exact holds.methodRef_eq valid
  | literal data =>
    cases data with
    | string text => exact holds.literal_string
    | classRef type => exact holds.literal_classRef valid
    | integer value =>
      cases holds with
      | integer found => rw [Resolves, ConstantPool.literal, found, ok_bind]; rfl
    | float bits =>
      cases holds with
      | float found => rw [Resolves, ConstantPool.literal, found, ok_bind]; rfl
    | long value =>
      cases holds with
      | long found => rw [Resolves, ConstantPool.literal, found, ok_bind]; rfl
    | double bits =>
      cases holds with
      | double found => rw [Resolves, ConstantPool.literal, found, ok_bind]; rfl

open PoolBuilder in
/-- A run of requests grows a sound builder, adding Utf8 entries for their texts only, and
leaves each returned index standing for its request's value. -/
theorem run_mapM (requests : List PoolRequest) {builder builder' : PoolBuilder}
    {indices : List Nat} (sound : builder.Sound)
    (ran : (requests.mapM run).run.run builder = (.ok indices, builder')) :
    Grows builder builder' (requests.flatMap texts) ∧
      ∀ call ∈ requests.zip indices, builder'.toPool.Holds call.2 call.1.value := by
  induction requests generalizing builder indices with
  | nil =>
    rw [List.mapM_nil] at ran
    change (Except.ok [], builder) = (Except.ok indices, builder') at ran
    simp only [Prod.mk.injEq, Except.ok.injEq] at ran
    obtain ⟨rfl, rfl⟩ := ran
    exact ⟨Grows.refl sound _, by simp⟩
  | cons request rest ih =>
    rw [List.mapM_cons] at ran
    obtain ⟨index, between, first, others⟩ := PoolM.run_bind_eq_ok ran
    obtain ⟨rest', after, following, done⟩ := PoolM.run_bind_eq_ok others
    change (Except.ok (index :: rest'), after) = (Except.ok indices, builder') at done
    simp only [Prod.mk.injEq, Except.ok.injEq] at done
    obtain ⟨rfl, rfl⟩ := done
    obtain ⟨grown, holds⟩ := serves request builder between index sound first
    obtain ⟨grownRest, holdsRest⟩ := ih grown.sound following
    refine ⟨by simpa using grown.trans grownRest, ?_⟩
    intro call member
    rcases List.mem_cons.mp member with rfl | member
    · exact grownRest.holds holds
    · exact holdsRest call member

/-- Requests run one after the other, each on the builder the previous one left. -/
theorem run_mapM_cons {request : PoolRequest} {rest : List PoolRequest}
    {builder between builder' : PoolBuilder} {index : Nat} {indices : List Nat}
    (first : request.run.run.run builder = (.ok index, between))
    (others : (rest.mapM run).run.run between = (.ok indices, builder')) :
    ((request :: rest).mapM run).run.run builder = (.ok (index :: indices), builder') := by
  rw [List.mapM_cons, run_run_bind, first]
  dsimp only
  rw [run_run_bind, others]
  rfl

end PoolRequest

open PoolBuilder PoolRequest in
/-- **The pool builder agrees with the pool reader.** After any sequence of requests that all
succeed, starting from an empty builder:

* two requests got the same index exactly when they asked for the same value;
* the pool, written as bytes, reads back as itself, provided every text the requests carried
  takes at most 65535 bytes in modified UTF-8 (a longer one has its length written modulo
  65536, and the bytes no longer read back);
* the slot after every `long` or `double` entry is present and unusable;
* each returned index, resolved in the pool, gives back its request when its names and
  descriptors are valid. -/
theorem builder_pool_agrees_with_reader (requests : List PoolRequest) {indices : List Nat}
    {builder : PoolBuilder}
    (built : (requests.mapM PoolRequest.run).run.run {} = (.ok indices, builder)) :
    (∀ call ∈ requests.zip indices, ∀ other ∈ requests.zip indices,
        call.2 = other.2 ↔ call.1.value = other.1.value) ∧
      ((∀ request ∈ requests, ∀ text ∈ request.texts, (ModifiedUtf8.encode text).length < 65536) →
        ConstantPool.read.run builder.toPool.bytes = .ok (builder.toPool, [])) ∧
      (∀ index constant, builder.toPool.get index = .ok constant → constant.width = 2 →
        builder.toPool.entries[index + 1]? = some none) ∧
      (∀ call ∈ requests.zip indices, call.1.Valid → call.1.Resolves builder.toPool call.2) := by
  obtain ⟨grown, holds⟩ := run_mapM requests Sound.empty built
  have sound := grown.sound
  refine ⟨fun call member other member' => ?_, fun short => ?_,
    fun _ _ found wide => ConstantPool.ofConstants_wide found wide,
    fun call member valid => resolves valid (holds call member)⟩
  · -- one index stands for one value, and one value sits at one index
    constructor
    · intro same
      exact (holds call member).functional (same ▸ holds other member')
    · intro same
      exact (holds call member).unique (fun _ _ _ => sound.distinct) (same ▸ holds other member')
  · -- every entry the format can hold: texts by the hypothesis, the rest by soundness
    have fits : ∀ constant ∈ builder.constants.toList, constant.Fits := by
      intro constant member
      by_cases isText : ∃ text, constant = .utf8 text
      · obtain ⟨text, rfl⟩ := isText
        rcases grown.newTexts text member with initial | listed
        · simp at initial
        · obtain ⟨request, requested, carried⟩ := List.mem_flatMap.mp listed
          exact short request requested text carried
      · exact sound.fits constant member fun text same => isText ⟨text, same⟩
    have small : builder.toPool.entries.size < 65536 := by
      have := sound.size
      have := sound.below
      omega
    exact (ConstantPool.reads_read fits small).run

open PoolBuilder PoolRequest in
/-- A text asked for twice, around a `long`: the second request gets the first one's index, and
the pool of two entries and three slots reads back. -/
theorem repeated_text_pool_reads_back :
    ([PoolRequest.utf8 "A", .literal (.long 5), .utf8 "A"].mapM PoolRequest.run).run.run {} =
        (.ok [1, 2, 1], ⟨#[.utf8 "A", .long 5], 4,
          (({} : Std.HashMap Constant Nat).insert (.utf8 "A") 1).insert (.long 5) 2⟩) ∧
      ConstantPool.read.run (ConstantPool.ofConstants #[.utf8 "A", .long 5]).bytes =
        .ok (ConstantPool.ofConstants #[.utf8 "A", .long 5], []) := by
  have text : (PoolRequest.utf8 "A").run.run.run {} = (.ok 1, ⟨#[.utf8 "A"], 2,
      ({} : Std.HashMap Constant Nat).insert (.utf8 "A") 1⟩) :=
    run_intern_new (by simp) (by decide)
  have long : (PoolRequest.literal (.long 5)).run.run.run ⟨#[.utf8 "A"], 2,
      ({} : Std.HashMap Constant Nat).insert (.utf8 "A") 1⟩ = (.ok 2, ⟨#[.utf8 "A", .long 5], 4,
        (({} : Std.HashMap Constant Nat).insert (.utf8 "A") 1).insert (.long 5) 2⟩) :=
    run_intern_new (by simp) (by decide)
  have again : (PoolRequest.utf8 "A").run.run.run ⟨#[.utf8 "A", .long 5], 4,
      (({} : Std.HashMap Constant Nat).insert (.utf8 "A") 1).insert (.long 5) 2⟩ =
        (.ok 1, ⟨#[.utf8 "A", .long 5], 4,
          (({} : Std.HashMap Constant Nat).insert (.utf8 "A") 1).insert (.long 5) 2⟩) :=
    run_intern_known (by simp only [Std.HashMap.getElem?_insert, beq_iff_eq, reduceCtorEq,
      ↓reduceIte])
  have built := run_mapM_cons text (run_mapM_cons long (@run_mapM_cons _ [] _ _ _ _ _ again rfl))
  refine ⟨built, (builder_pool_agrees_with_reader _ built).2.1 ?_⟩
  simp [PoolRequest.texts, ModifiedUtf8.encode]
  decide

end ClassKit
