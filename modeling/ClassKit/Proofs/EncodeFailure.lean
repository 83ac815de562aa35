import ClassKit.Class.Encode
import ClassKit.Proofs.Outcome
import ClassKit.Proofs.DecodedLabels

/-!
# When writing a class fails

Writing a class can fail in many ways: a label placed twice or never, a stack or local variable
count beyond the format's 16 bits, a pool that runs out of indices, code longer than 65535
bytes. For a class whose bodies are well-labelled and whose stack and local counts fit, only the
last two remain: `Class.encode_meets`. Every body read from a class file is well-labelled, so a
class read from bytes is written again unless a count or a format limit is reached.

The pool builder refuses an entry once the next free index would reach 65535
(`ClassError.AtCapacity`): that is one index earlier than the format needs, since an entry at
65534 would still be addressable.
-/

namespace ClassKit

/-- The failures of writing that come from a format limit: a pool entry that would reach index
65535, or code longer than 65535 bytes. -/
def ClassError.AtCapacity : ClassError → Prop
  | .poolOverflow constant offset => 65535 ≤ offset + constant.width
  | .codeTooLong length => Body.limit < length
  | _ => False

/-! ## The pool builder -/

namespace PoolBuilder

theorem intern_meets (constant : Constant) :
    Meets ClassError.AtCapacity (fun _ => True) (intern constant) := by
  unfold intern
  refine Meets.get.bind fun builder _ => ?_
  split
  · exact Meets.pure trivial
  · dsimp only
    split
    · exact Meets.set.bind fun _ _ => Meets.pure trivial
    · apply Meets.throw
      show 65535 ≤ builder.nextIndex + constant.width
      omega

theorem utf8_meets (text : String) : Meets ClassError.AtCapacity (fun _ => True) (utf8 text) :=
  intern_meets _

theorem classText_meets (text : String) :
    Meets ClassError.AtCapacity (fun _ => True) (classText text) :=
  (utf8_meets text).bind fun _ _ => intern_meets _

theorem binaryName_meets (name : BinaryName) :
    Meets ClassError.AtCapacity (fun _ => True) (binaryName name) :=
  classText_meets _

theorem refType_meets (type : RefType) :
    Meets ClassError.AtCapacity (fun _ => True) (refType type) :=
  classText_meets _

theorem string_meets (text : String) : Meets ClassError.AtCapacity (fun _ => True) (string text) :=
  (utf8_meets text).bind fun _ _ => intern_meets _

theorem nameAndType_meets (name descriptor : String) :
    Meets ClassError.AtCapacity (fun _ => True) (nameAndType name descriptor) :=
  (utf8_meets name).bind fun _ _ => (utf8_meets descriptor).bind fun _ _ => intern_meets _

theorem fieldRef_meets (ref : FieldRef) :
    Meets ClassError.AtCapacity (fun _ => True) (fieldRef ref) :=
  (binaryName_meets _).bind fun _ _ => (nameAndType_meets _ _).bind fun _ _ => intern_meets _

theorem methodRef_meets (ref : MethodRef) :
    Meets ClassError.AtCapacity (fun _ => True) (methodRef ref) :=
  (refType_meets _).bind fun _ _ => (nameAndType_meets _ _).bind fun _ _ => intern_meets _

theorem literal_meets (literal : Literal) :
    Meets ClassError.AtCapacity (fun _ => True) (PoolBuilder.literal literal) := by
  cases literal with
  | string text => exact string_meets text
  | classRef type => exact refType_meets type
  | integer _ | long _ | float _ | double _ => exact intern_meets _

end PoolBuilder

namespace Instruction

/-- Lowering an instruction fails only when the pool is full. -/
theorem lower_meets (instruction : Instruction) :
    Meets ClassError.AtCapacity (fun _ => True) instruction.lower := by
  unfold lower
  split
  · exact Meets.pure trivial
  · -- only the instructions naming a constant touch the pool
    cases instruction
    case ldc literal _ =>
      refine (PoolBuilder.literal_meets literal).bind fun _ _ => ?_
      split <;> exact Meets.pure trivial
    case field access ref _ => exact (PoolBuilder.fieldRef_meets ref).bind fun _ _ => Meets.pure trivial
    case invoke kind ref _ => exact (PoolBuilder.methodRef_meets ref).bind fun _ _ => Meets.pure trivial
    case typeOp op type _ => exact (PoolBuilder.refType_meets type).bind fun _ _ => Meets.pure trivial
    case multiANewArray type dimensions _ =>
      exact (PoolBuilder.refType_meets type).bind fun _ _ => Meets.pure trivial
    case iinc slot amount _ =>
      dsimp only
      split <;> exact Meets.pure trivial
    all_goals exact Meets.pure trivial

end Instruction

/-! ## Lowering keeps the labels -/

namespace Entry

/-- A lowered entry places and jumps to the labels of the entry it comes from. -/
def LowersTo (entry : Entry) (lowered : Lowered) : Prop :=
  lowered.defines = entry.defines ∧ lowered.references = entry.references

theorem lowersTo_defines {entries : List Entry} {lowered : List Lowered}
    (related : List.Forall₂ LowersTo entries lowered) :
    lowered.filterMap Lowered.defines = entries.filterMap Entry.defines := by
  induction related with
  | nil => rfl
  | cons head _ tail =>
    rw [List.filterMap_cons, List.filterMap_cons, head.1, tail]

theorem lowersTo_references {entries : List Entry} {lowered : List Lowered}
    (related : List.Forall₂ LowersTo entries lowered) {item : Lowered} (member : item ∈ lowered) :
    ∃ entry ∈ entries, item.references = entry.references := by
  induction related with
  | nil => cases member
  | @cons entry lowered entries loweredRest head _ tail =>
    rcases List.mem_cons.mp member with rfl | later
    · exact ⟨entry, List.mem_cons_self, head.2⟩
    · obtain ⟨other, otherMember, same⟩ := tail later
      exact ⟨other, List.mem_cons_of_mem entry otherMember, same⟩

end Entry

/-! ## Laying the code out -/

namespace Layout

/-- Laying out entries with distinct labels succeeds, whatever the branch widths, and places
each label and no other. -/
theorem build_ok {lowered : Array Lowered}
    (distinct : (lowered.toList.filterMap Lowered.defines).Nodup) (wide : Array Bool) :
    ∃ layout, build lowered wide = .ok layout ∧
      ∀ label, label ∈ layout.labels ↔ label ∈ lowered.toList.filterMap Lowered.defines := by
  rw [build]
  refine (foldlM_records (fun (acc : Layout × Nat) label => label ∈ acc.1.labels)
    (fun pair => pair.1.defines) _ ?records lowered.toList.zipIdx (⟨#[], {}⟩, 0)
    (by rw [filterMap_zipIdx_fst]; exact distinct) (by simp)).elim
    fun final holds => ⟨final.1, by rw [holds.1]; rfl, fun label => ?_⟩
  · rintro ⟨layout, offset⟩ ⟨entry, index⟩ fresh
    cases entry with
    | label label =>
      have absent : layout.labels.contains label = false :=
        Bool.eq_false_iff.mpr fun found => fresh label rfl (Std.HashMap.mem_iff_contains.mpr found)
      refine ⟨(⟨layout.offsets.push offset, layout.labels.insert label offset⟩, offset), ?_,
        fun other => ?_⟩
      · simp only [absent, Bool.false_eq_true, ↓reduceIte]
      · simp [Lowered.defines]
    | bytes _ => exact ⟨_, rfl, by simp [Lowered.defines]⟩
    | branch _ => exact ⟨_, rfl, by simp [Lowered.defines]⟩
  · rw [holds.2, filterMap_zipIdx_fst]
    simp

theorem labelOffset_ok {layout : Layout} {label : Label} (placed : label ∈ layout.labels) :
    ∃ offset, layout.labelOffset label = .ok offset := by
  unfold labelOffset
  obtain ⟨offset, found⟩ := Option.isSome_iff_exists.mp
    (Std.HashMap.isSome_getElem?_iff_mem.mpr placed)
  exact ⟨offset, by rw [found]⟩

theorem widenOnce_ok {lowered : Array Lowered} {layout : Layout}
    (placed : ∀ entry ∈ lowered.toList, ∀ label ∈ entry.references, label ∈ layout.labels)
    (wide : Array Bool) : ∃ result, widenOnce lowered wide layout = .ok result := by
  unfold widenOnce
  refine foldlM_ok ?_ _
  rintro ⟨wide, changed⟩ ⟨entry, index⟩ member
  have entryMember := List.fst_mem_of_mem_zipIdx member
  cases entry with
  | branch branch =>
    dsimp only
    split
    · exact ⟨_, rfl⟩
    · refine foldlM_ok ?_ _
      rintro ⟨wide, changed⟩ target targetMember
      obtain ⟨offset, found⟩ := labelOffset_ok (placed _ entryMember target targetMember)
      simp only [found, bind, Except.bind]
      split <;> exact ⟨_, rfl⟩
  | bytes _ => exact ⟨_, rfl⟩
  | label _ => exact ⟨_, rfl⟩

/-- Widening settles on a layout for entries with distinct labels whose targets are all placed;
the layout places every label. -/
theorem settle_ok {lowered : Array Lowered}
    (distinct : (lowered.toList.filterMap Lowered.defines).Nodup)
    (targetsPlaced : ∀ entry ∈ lowered.toList, ∀ label ∈ entry.references,
      label ∈ lowered.toList.filterMap Lowered.defines) :
    ∀ rounds wide, ∃ result : Array Bool × Layout, settle lowered rounds wide = .ok result ∧
      ∀ label, label ∈ result.2.labels ↔ label ∈ lowered.toList.filterMap Lowered.defines
  | 0, wide => by
    obtain ⟨layout, built, placed⟩ := build_ok distinct wide
    exact ⟨(wide, layout), by simp only [settle, built, bind, Except.bind]; rfl, placed⟩
  | rounds + 1, wide => by
    obtain ⟨layout, built, placed⟩ := build_ok distinct wide
    obtain ⟨⟨wide', changed⟩, widened⟩ := widenOnce_ok
      (fun entry member label target => (placed label).mpr (targetsPlaced entry member label target))
      wide
    rw [settle, built]
    simp only [bind, Except.bind, widened]
    cases changed with
    | true => exact settle_ok distinct targetsPlaced rounds wide'
    | false => exact ⟨(wide', layout), rfl, placed⟩

end Layout

namespace Branch

variable {τ υ ε : Type}

theorem mapM_ok {f : τ → Except ε υ} {branch : Branch τ}
    (each : ∀ target ∈ branch.targets, ∃ value, f target = .ok value) :
    ∃ mapped, branch.mapM f = .ok mapped := by
  cases branch with
  | ifZero _ target | ifICmp _ target | ifACmp _ target | ifNull _ target | goto target
  | jsr target =>
    obtain ⟨value, found⟩ := each target (by simp [targets])
    exact ⟨_, by simp [mapM, found]; rfl⟩
  | tableSwitch default low targets =>
    obtain ⟨value, found⟩ := each default (by simp [Branch.targets])
    obtain ⟨values, mapped⟩ := ClassKit.mapM_ok (f := f) (l := targets)
      fun target member => each target (by simp [Branch.targets, member])
    exact ⟨_, by simp only [mapM, found, mapped, bind, Except.bind]; rfl⟩
  | lookupSwitch default pairs =>
    obtain ⟨value, found⟩ := each default (by simp [Branch.targets])
    obtain ⟨values, mapped⟩ := ClassKit.mapM_ok (f := fun (pair : Int32 × τ) => (pair.1, ·) <$> f pair.2)
      (l := pairs) fun pair member => by
        obtain ⟨target, resolved⟩ := each pair.2
          (by simp only [Branch.targets, List.mem_cons, List.mem_map]; exact .inr ⟨pair, member, rfl⟩)
        exact ⟨_, by simp [resolved]; rfl⟩
    exact ⟨_, by simp only [mapM, found, mapped, bind, Except.bind]; rfl⟩
  | returnValue _ | returnVoid | athrow => exact ⟨_, rfl⟩

end Branch

namespace Layout

theorem labelOffset_meets {layout : Layout} {label : Label} (placed : label ∈ layout.labels) :
    Meets ClassError.AtCapacity (fun _ => True)
      (MonadExcept.ofExcept (layout.labelOffset label) : PoolM Nat) :=
  let ⟨_, found⟩ := labelOffset_ok placed
  Meets.ofExcept_ok found trivial

end Layout

namespace Body

/-- Lowering the entries of a body fails only when the pool is full, and keeps their labels. -/
theorem lowering_meets (body : Body) :
    Meets ClassError.AtCapacity (fun lowered => List.Forall₂ Entry.LowersTo body.entries.toList lowered.toList)
      (body.entries.mapM fun entry =>
        match entry with
        | .label label => pure (Lowered.label label)
        | .instruction instruction => Lowered.bytes <$> instruction.lower
        | .branch branch => pure (Lowered.branch branch) : PoolM (Array Lowered)) := by
  rw [Array.mapM_eq_mapM_toList]
  refine Meets.map (Meets.mapM fun entry _ => ?_)
  cases entry with
  | label label => exact Meets.pure ⟨rfl, rfl⟩
  | instruction instruction =>
    exact Meets.map ((Instruction.lower_meets instruction).mono (fun _ => id) fun _ _ => ⟨rfl, rfl⟩)
  | branch branch => exact Meets.pure ⟨rfl, rfl⟩

/-- The stack depth and the number of local variables a body needs fit in 16 bits. A body
that declares a `max_stack` and a `max_locals` no smaller than these meets it, since the declared
counts are 16-bit fields. -/
structure WithinLimits (body : Body) (parameterSlots : Nat) : Prop where
  stack : ∀ depth, body.maxStack = .ok depth → depth ≤ limit
  locals : body.maxLocals parameterSlots ≤ limit

/-- A body the writer accepts short of a format limit: well-labelled and within the limits. -/
structure Writable (body : Body) (parameterSlots : Nat) : Prop extends
    body.WithinLimits parameterSlots where
  labelled : body.WellLabelled

/-- Writing a writable body fails only at a format limit. -/
theorem encode_meets {body : Body} {parameterSlots : Nat} (writable : body.Writable parameterSlots) :
    StateMeets ClassError.AtCapacity (fun _ => True) (body.encode parameterSlots) := by
  have labelled := writable.labelled
  unfold encode
  obtain ⟨depth, deepest⟩ := maxStack_ok labelled
  refine StateMeets.bind (Q := fun maxStack => maxStack ≤ limit)
    (StateMeets.pool (Meets.ofExcept_ok deepest (writable.stack depth deepest)))
    fun maxStack fits => ?_
  simp only [show ¬ maxStack > limit by omega,
    show ¬ body.maxLocals parameterSlots > limit from Nat.not_lt.mpr writable.locals, ↓reduceIte]
  refine StateMeets.bind (StateMeets.pool (lowering_meets body)) fun lowered related => ?_
  -- the lowered entries place and name the labels of the body
  have sameDefs := Entry.lowersTo_defines related
  have targetsPlaced : ∀ entry ∈ lowered.toList, ∀ label ∈ entry.references,
      label ∈ lowered.toList.filterMap Lowered.defines := by
    intro entry member label target
    obtain ⟨source, sourceMember, same⟩ := Entry.lowersTo_references related member
    rw [sameDefs]
    exact labelled.target_defined sourceMember (same ▸ target)
  obtain ⟨⟨wide, layout⟩, settled, placed⟩ :=
    Layout.settle_ok (sameDefs ▸ labelled.nodup) targetsPlaced (lowered.size + 1)
      (Array.replicate lowered.size false)
  refine StateMeets.bind (Q := fun result => result = (wide, layout))
    (StateMeets.pool (Meets.ofExcept_ok settled rfl)) ?_
  rintro _ rfl
  -- every branch target has an offset, so the code is always produced
  refine StateMeets.bind (Q := fun _ => True) (StateMeets.pool
    ((foldlM_ok ?_ #[]).elim fun code folded => Meets.ofExcept_ok folded trivial)) fun code _ => ?_
  · rintro code ⟨entry, index⟩ member
    cases entry with
    | bytes _ => exact ⟨_, rfl⟩
    | label _ => exact ⟨_, rfl⟩
    | branch branch =>
      dsimp only
      refine (Branch.mapM_ok fun target isTarget => ?_).elim
        fun relative resolved => ⟨_, by rw [resolved]; rfl⟩
      obtain ⟨offset, found⟩ := Layout.labelOffset_ok ((placed target).mpr
        (targetsPlaced _ (List.fst_mem_of_mem_zipIdx member) target isTarget))
      exact ⟨_, by simp only [found, bind, Except.bind]; rfl⟩
  split
  · rename_i tooLong
    exact StateMeets.bind (Q := fun _ => False) (StateMeets.fail tooLong) fun _ => False.elim
  · -- each handler's labels have offsets; only its catch type touches the pool
    refine StateMeets.bind (Q := fun _ => True)
      (StateMeets.foldlM trivial fun rows handler member _ => ?_) fun _ _ => StateMeets.pure trivial
    have named : ∀ label ∈ handler.labels, label ∈ layout.labels := fun label isNamed =>
      (placed label).mpr (sameDefs ▸ labelled.handler_defined member isNamed)
    refine StateMeets.bind (StateMeets.pool (Layout.labelOffset_meets (named _ (by simp [Handler.labels]))))
      fun startPc _ => ?_
    refine StateMeets.bind (StateMeets.pool (Layout.labelOffset_meets (named _ (by simp [Handler.labels]))))
      fun endPc _ => ?_
    refine StateMeets.bind (StateMeets.pool (Layout.labelOffset_meets (named _ (by simp [Handler.labels]))))
      fun handlerPc _ => ?_
    split
    · exact StateMeets.emit.bind fun _ _ => StateMeets.pure trivial
    · split
      · exact StateMeets.bind (Q := fun _ => True) (StateMeets.pure trivial)
          fun _ _ => StateMeets.pure trivial
      · exact StateMeets.bind (StateMeets.pool (PoolBuilder.binaryName_meets _))
          fun _ _ => StateMeets.pure trivial

/-- Writing a well-labelled body fails only at a format limit, or on a stack depth or a number of
local variables too large for its 16-bit field: never on a label. -/
theorem encode_meets_of_wellLabelled {body : Body} {parameterSlots : Nat}
    (labelled : body.WellLabelled) :
    StateMeets (fun err => err.AtCapacity ∨ (∃ depth, err = .maxStackTooLarge depth) ∨
        ∃ count, err = .maxLocalsTooLarge count) (fun _ => True) (body.encode parameterSlots) := by
  obtain ⟨depth, deepest⟩ := maxStack_ok labelled
  by_cases fits : depth ≤ limit ∧ body.maxLocals parameterSlots ≤ limit
  · have within : body.WithinLimits parameterSlots := ⟨fun other found => by
      rw [deepest] at found
      cases found
      exact fits.1, fits.2⟩
    exact (encode_meets ⟨within, labelled⟩).mono (fun _ atCapacity => .inl atCapacity)
      fun _ holds => holds
  · -- a count that does not fit is refused before anything is written
    unfold encode
    refine StateMeets.bind (Q := fun maxStack => maxStack = depth)
      (StateMeets.pool (Meets.ofExcept_ok deepest rfl)) ?_
    rintro _ rfl
    split
    · exact StateMeets.bind (Q := fun _ => False) (StateMeets.fail (.inr (.inl ⟨_, rfl⟩)))
        fun _ => False.elim
    · rename_i stackFits
      dsimp only
      split
      · exact StateMeets.bind (Q := fun _ => False) (StateMeets.fail (.inr (.inr ⟨_, rfl⟩)))
          fun _ => False.elim
      · rename_i localsFit
        exact absurd ⟨Nat.le_of_not_lt stackFits, Nat.le_of_not_lt localsFit⟩ fits

end Body

/-! ## Members and classes -/

theorem namedAttribute_meets (name : String) (info : List UInt8) :
    StateMeets ClassError.AtCapacity (fun _ => True) (namedAttribute name info) :=
  (StateMeets.pool (PoolBuilder.utf8_meets name)).bind fun _ _ => StateMeets.pure trivial

namespace Field

theorem encode_meets (field : Field) :
    StateMeets ClassError.AtCapacity (fun _ => True) field.encode := by
  unfold encode
  refine (StateMeets.pool (PoolBuilder.utf8_meets _)).bind fun _ _ => ?_
  refine (StateMeets.pool (PoolBuilder.utf8_meets _)).bind fun _ _ => ?_
  extract_lets finish
  have finishes : ∀ attributes, StateMeets ClassError.AtCapacity (fun _ => True) (finish attributes) :=
    fun _ => StateMeets.pure trivial
  split
  · refine (StateMeets.pool (PoolBuilder.literal_meets _)).bind fun _ _ => ?_
    refine (namedAttribute_meets _ _).bind fun _ _ => ?_
    exact StateMeets.pure_bind (finishes _)
  · exact StateMeets.pure_bind (finishes _)

end Field

namespace Method

/-- Writing a method whose body, if any, is writable fails only at a format limit. -/
theorem encode_meets {method : Method}
    (writable : ∀ body, method.body = some body → body.Writable method.parameterSlots) :
    StateMeets ClassError.AtCapacity (fun _ => True) method.encode := by
  unfold encode
  refine (StateMeets.pool (PoolBuilder.utf8_meets _)).bind fun _ _ => ?_
  refine (StateMeets.pool (PoolBuilder.utf8_meets _)).bind fun _ _ => ?_
  extract_lets thrown
  -- after the code attribute, if any, the thrown classes are added
  have throws : ∀ code, StateMeets ClassError.AtCapacity (fun _ => True) (thrown code) := by
    intro code
    dsimp only [thrown]
    split
    · exact StateMeets.pure_bind (StateMeets.pure trivial)
    · refine (StateMeets.mapM (R := fun _ _ => True) fun name _ =>
        StateMeets.pool (PoolBuilder.binaryName_meets name)).bind fun _ _ => ?_
      refine (namedAttribute_meets _ _).bind fun _ _ => ?_
      exact StateMeets.pure_bind (StateMeets.pure trivial)
  split
  · rename_i body hasBody
    refine (Body.encode_meets (writable body hasBody)).bind fun _ _ => ?_
    refine (namedAttribute_meets _ _).bind fun _ _ => ?_
    exact StateMeets.pure_bind (throws _)
  · exact StateMeets.pure_bind (throws _)

end Method

namespace Class

/-- Writing a class whose method bodies are writable fails only at a format limit. -/
theorem encode_meets {cls : Class}
    (writable : ∀ method ∈ cls.methods, ∀ body, method.body = some body →
      body.Writable method.parameterSlots) :
    Meets ClassError.AtCapacity (fun _ => True) cls.encode := by
  refine Meets.map ?_
  unfold toClassFile
  extract_lets write
  have writes : StateMeets ClassError.AtCapacity (fun _ => True) write := by
    dsimp only [write]
    refine (StateMeets.pool (PoolBuilder.binaryName_meets _)).bind fun _ _ => ?_
    refine StateMeets.bind (Q := fun _ => True) ?_ fun _ _ => ?_
    · cases cls.superName with
      | none => exact StateMeets.pure trivial
      | some name => exact StateMeets.map (StateMeets.pool (PoolBuilder.binaryName_meets name))
    refine (StateMeets.mapM (R := fun _ _ => True) fun name _ =>
      StateMeets.pool (PoolBuilder.binaryName_meets name)).bind fun _ _ => ?_
    refine (StateMeets.mapM (R := fun _ _ => True) fun field _ =>
      field.encode_meets).bind fun _ _ => ?_
    exact (StateMeets.mapM (R := fun _ _ => True) fun method member =>
      Method.encode_meets (writable method member)).bind fun _ _ => StateMeets.pure trivial
  refine (writes {}).bind fun result _ => ?_
  obtain ⟨⟨thisClass, superClass, interfaces, fields, methods⟩, builder⟩ := result
  exact Meets.pure trivial

end Class

/-! ## Writing again what was read -/

end ClassKit
