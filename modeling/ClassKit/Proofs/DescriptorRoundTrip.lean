import ClassKit.Error
import ClassKit.Descriptor.Parse
import Mathlib.Tactic

/-!
# Descriptors read back what rendering writes

A name or a type as the format allows it reads back from its text: `FieldType.parse_render`,
`MethodDescriptor.parse_render`, and for the text of a class constant
`RefType.ofClassText_classConstantText`. "As the format allows it" is `Valid`: class and member
names that their checks accept, and arrays of at most 255 dimensions. These are the invariants
that the types of names and descriptors keep wherever they are built from text.

The readers consume a prefix of the characters, so each lemma reads a rendering followed by any
`rest` and gives `rest` back; a class name stops at the first `;`, and a valid binary name has
none, since every character of it is a `/` or lies in a segment that the check accepted
(`BinaryName.Valid.not_delimiter`).

Conversely, a reader reads only renderings: whatever it reads is valid, and the characters it
consumed are its rendering (`Descriptor.readField_eq_ok`, `Descriptor.readMethod_eq_ok`). So
parsing accepts exactly the renderings of valid types, and each valid type has one text
(`descriptor_parsing_inverts_rendering`).
-/

namespace ClassKit

/-! ## Valid names -/

/-- A member name that `UnqualifiedName.ofString` accepts. -/
def UnqualifiedName.Valid (name : UnqualifiedName) : Prop := unqualifiedNameProblem name.text = none

/-- A class name that `BinaryName.ofString` accepts. -/
def BinaryName.Valid (name : BinaryName) : Prop := binaryNameProblem name.text = none

instance (name : UnqualifiedName) : Decidable name.Valid :=
  inferInstanceAs (Decidable (unqualifiedNameProblem name.text = none))

instance (name : BinaryName) : Decidable name.Valid :=
  inferInstanceAs (Decidable (binaryNameProblem name.text = none))

namespace RefType

/-- A reference type the format can write: valid class names, at most 255 dimensions. -/
def Valid : RefType → Prop
  | object name => name.Valid
  | objectArray array => array.dimensions ≤ 255 ∧ array.element.Valid
  | primitiveArray array => array.dimensions ≤ 255

instance : (type : RefType) → Decidable type.Valid
  | object name => inferInstanceAs (Decidable name.Valid)
  | objectArray array => inferInstanceAs (Decidable (array.dimensions ≤ 255 ∧ array.element.Valid))
  | primitiveArray array => inferInstanceAs (Decidable (array.dimensions ≤ 255))

end RefType

namespace FieldType

def Valid : FieldType → Prop
  | base _ => True
  | ref type => type.Valid

instance : (type : FieldType) → Decidable type.Valid
  | base _ => inferInstanceAs (Decidable True)
  | ref type => inferInstanceAs (Decidable type.Valid)

end FieldType

/-- A method descriptor whose parameter and return types are all valid. -/
def MethodDescriptor.Valid (descriptor : MethodDescriptor) : Prop :=
  (∀ type ∈ descriptor.parameters, type.Valid) ∧ ∀ type ∈ descriptor.returnType, type.Valid

instance (descriptor : MethodDescriptor) : Decidable descriptor.Valid :=
  inferInstanceAs (Decidable ((∀ type ∈ descriptor.parameters, type.Valid) ∧
    ∀ type ∈ descriptor.returnType, type.Valid))

theorem unqualifiedNameProblem_eq_none {text : String} :
    unqualifiedNameProblem text = none ↔ text ≠ "" ∧ ∀ c ∈ text.toList, isNameDelimiter c = false := by
  unfold unqualifiedNameProblem
  by_cases empty : text = ""
  · simp [empty]
  · have notEmpty : text.isEmpty = false := by simpa using empty
    simp only [notEmpty, Bool.false_eq_true, if_false, ne_eq, empty, not_false_eq_true,
      true_and]
    cases found : text.toList.find? isNameDelimiter with
    | none => simpa using List.find?_eq_none.mp found
    | some c =>
      have delimiter := List.find?_some found
      simp only [reduceCtorEq, false_iff, not_forall]
      exact ⟨c, List.mem_of_find?_eq_some found, by simp [delimiter]⟩

theorem UnqualifiedName.Valid.ofString {name : UnqualifiedName} (valid : name.Valid) :
    UnqualifiedName.ofString name.text = .ok name := by
  rw [UnqualifiedName.ofString, show unqualifiedNameProblem name.text = none from valid]

theorem BinaryName.Valid.ofString {name : BinaryName} (valid : name.Valid) :
    BinaryName.ofString name.text = .ok name := by
  rw [BinaryName.ofString, show binaryNameProblem name.text = none from valid]

/-- A character off the separator lies in one of the segments that splitting gives. -/
theorem exists_segment_of_mem {c separator : Char} {chars : List Char} (member : c ∈ chars)
    (other : c ≠ separator) : ∃ segment ∈ chars.splitOn separator, c ∈ segment := by
  induction chars with
  | nil => simp at member
  | cons first rest ih =>
    rw [List.splitOn_cons_eq_if_modifyHead]
    by_cases cut : first = separator
    · -- the first character is a separator: the segments are those of the rest
      have inRest : c ∈ rest := by
        rcases List.mem_cons.mp member with same | inRest
        · exact absurd (same.trans cut) other
        · exact inRest
      obtain ⟨segment, isSegment, inSegment⟩ := ih inRest
      exact ⟨segment, by simp [cut, isSegment], inSegment⟩
    · -- otherwise it joins the first segment of the rest
      simp only [beq_iff_eq, cut, if_false]
      obtain ⟨head, tail, split⟩ := List.exists_cons_of_ne_nil (List.splitOn_ne_nil separator rest)
      rw [split, List.modifyHead_cons]
      rcases List.mem_cons.mp member with same | inRest
      · exact ⟨first :: head, by simp, by simp [same]⟩
      · obtain ⟨segment, isSegment, inSegment⟩ := ih inRest
        rw [split] at isSegment
        rcases List.mem_cons.mp isSegment with rfl | inTail
        · exact ⟨first :: segment, by simp, by simp [inSegment]⟩
        · exact ⟨segment, by simp [inTail], inSegment⟩

/-- Every character of a valid binary name is a `/` or no delimiter at all. -/
theorem BinaryName.Valid.not_delimiter {name : BinaryName} (valid : name.Valid) :
    ∀ c ∈ name.text.toList, c = '/' ∨ isNameDelimiter c = false := by
  have segments : ∀ segment ∈ name.text.toList.splitOn '/',
      unqualifiedNameProblem (String.ofList segment) = none := by
    unfold BinaryName.Valid binaryNameProblem at valid
    split at valid
    · cases valid
    · split at valid
      · cases valid
      · next found =>
        intro segment member
        exact List.findSome?_eq_none_iff.mp found _ (List.mem_map_of_mem member)
  intro c member
  by_cases slash : c = '/'
  · exact Or.inl slash
  · obtain ⟨segment, isSegment, inSegment⟩ := exists_segment_of_mem member slash
    have accepted := (unqualifiedNameProblem_eq_none.mp (segments segment isSegment)).2
    exact Or.inr (accepted c (by simpa using inSegment))

theorem BinaryName.Valid.semicolon_not_mem {name : BinaryName} (valid : name.Valid) :
    ';' ∉ name.text.toList := fun member => by
  simpa [isNameDelimiter] using valid.not_delimiter ';' member

theorem BinaryName.Valid.bracket_not_mem {name : BinaryName} (valid : name.Valid) :
    '[' ∉ name.text.toList := fun member => by
  simpa [isNameDelimiter] using valid.not_delimiter '[' member

/-! ## Readers -/

namespace Descriptor

@[simp] theorem readBase_letter (base : BaseType) (rest : List Char) :
    readBase (base.letter :: rest) = .ok (base, rest) := by
  cases base <;> rfl

theorem splitAtSemicolon_append {name : List Char} (noSemicolon : ';' ∉ name) (rest : List Char) :
    splitAtSemicolon (name ++ ';' :: rest) = some (name, rest) := by
  induction name with
  | nil => simp [splitAtSemicolon]
  | cons c more ih =>
    have other : c ≠ ';' := fun same => noSemicolon (by simp [same])
    rw [List.cons_append, splitAtSemicolon, if_neg other,
      ih (fun member => noSemicolon (List.mem_cons_of_mem c member))]
    rfl

@[simp] theorem toList_brackets (n : Nat) : (brackets n).toList = List.replicate n '[' := by
  simp [brackets]

/-- A class descriptor followed by more characters. -/
theorem render_append (name : BinaryName) (rest : List Char) :
    name.render.toList ++ rest = 'L' :: (name.text.toList ++ ';' :: rest) := by
  simp [BinaryName.render]

theorem readClassName_render {name : BinaryName} (valid : name.Valid) (rest : List Char) :
    readClassName (name.render.toList ++ rest) = .ok (name, rest) := by
  rw [render_append, readClassName, splitAtSemicolon_append valid.semicolon_not_mem]
  simp only [String.ofList_toList, valid.ofString]

/-- Brackets in front of a character that is not one are read as the dimensions. -/
theorem takeWhile_brackets (n : Nat) {c : Char} (other : c ≠ '[') (rest : List Char) :
    (List.replicate n '[' ++ c :: rest).takeWhile (· == '[') = List.replicate n '[' := by
  induction n with
  | zero => simp [other]
  | succ n ih => simp [List.replicate_succ, ih]

theorem dropWhile_brackets (n : Nat) {c : Char} (other : c ≠ '[') (rest : List Char) :
    (List.replicate n '[' ++ c :: rest).dropWhile (· == '[') = c :: rest := by
  induction n with
  | zero => simp [other]
  | succ n ih => simp [List.replicate_succ, ih]

theorem letter_ne_bracket (base : BaseType) : base.letter ≠ '[' := by
  cases base <;> decide

theorem letter_ne_class (base : BaseType) : base.letter ≠ 'L' := by
  cases base <;> decide

theorem toList_render_base (base : BaseType) : base.render.toList = [base.letter] := by
  simp [BaseType.render]

/-- A reference type with `dimensions` brackets is read from what follows them. -/
theorem readRef_brackets {dimensions : Nat} (fits : dimensions ≤ 255) {c : Char}
    (other : c ≠ '[') (rest : List Char) :
    readRef (List.replicate dimensions '[' ++ c :: rest) = readRefElement dimensions (c :: rest) := by
  rw [readRef, takeWhile_brackets _ other, dropWhile_brackets _ other, List.length_replicate,
    if_neg (by omega)]

theorem readRef_render {type : RefType} (valid : type.Valid) (rest : List Char) :
    readRef (type.render.toList ++ rest) = .ok (type, rest) := by
  cases type with
  | object name =>
    have read := readClassName_render valid rest
    have start : readRef (name.render.toList ++ rest) =
        readRefElement 0 (name.render.toList ++ rest) := by
      rw [render_append]
      exact readRef_brackets (show 0 ≤ 255 by omega) (by decide) _
    rw [RefType.render, start, render_append, readRefElement.eq_1, ← render_append, read]
    rfl
  | objectArray array =>
    obtain ⟨fits, named⟩ := valid
    have read := readClassName_render named rest
    rw [RefType.render, String.toList_append, toList_brackets, List.append_assoc, render_append,
      readRef_brackets fits (by decide), ArrayType.dimensions, readRefElement.eq_1,
      ← render_append, read]
    rfl
  | primitiveArray array =>
    rw [RefType.render, String.toList_append, toList_brackets, toList_render_base,
      List.append_assoc, List.singleton_append, readRef_brackets valid (letter_ne_bracket _),
      ArrayType.dimensions, readRefElement.eq_3, readBase_letter]
    · rfl
    · exact fun _ same => letter_ne_class _ (List.cons.inj same).1

theorem readField_render {type : FieldType} (valid : type.Valid) (rest : List Char) :
    readField (type.render.toList ++ rest) = .ok (type, rest) := by
  cases type with
  | base base =>
    rw [FieldType.render, toList_render_base, List.singleton_append, readField.eq_3,
      readBase_letter]
    · rfl
    · exact fun _ same => letter_ne_class base (List.cons.inj same).1
    · exact fun _ same => letter_ne_bracket base (List.cons.inj same).1
  | ref type =>
    have read := readRef_render valid rest
    rw [FieldType.render]
    cases type with
    | object name =>
      rw [RefType.render, render_append, readField.eq_1, ← render_append]
      rw [RefType.render] at read
      rw [read]
      rfl
    | objectArray array =>
      have starts : (RefType.objectArray array).render.toList ++ rest =
          '[' :: ((brackets array.additionalDimensions).toList ++ array.element.render.toList ++
            rest) := by
        simp [RefType.render, ArrayType.dimensions, List.replicate_succ]
      rw [starts, readField.eq_2, ← starts, read]
      rfl
    | primitiveArray array =>
      have starts : (RefType.primitiveArray array).render.toList ++ rest =
          '[' :: ((brackets array.additionalDimensions).toList ++ array.element.render.toList ++
            rest) := by
        simp [RefType.render, ArrayType.dimensions, List.replicate_succ]
      rw [starts, readField.eq_2, ← starts, read]
      rfl

/-- A rendered field type starts with a letter, `L` or `[`: never with `)` or `V`, which end
the parameters of a method descriptor and stand for its `void` return. -/
theorem exists_render_cons (type : FieldType) :
    ∃ c tail, type.render.toList = c :: tail ∧ c ≠ ')' ∧ c ≠ 'V' := by
  cases type with
  | base base =>
    refine ⟨base.letter, [], toList_render_base base, ?_, ?_⟩ <;> cases base <;> decide
  | ref type =>
    cases type with
    | object name =>
      exact ⟨'L', name.text.toList ++ [';'], by simp [FieldType.render, RefType.render,
        BinaryName.render], by decide, by decide⟩
    | objectArray array =>
      exact ⟨'[', List.replicate array.additionalDimensions '[' ++ array.element.render.toList,
        by simp [FieldType.render, RefType.render, ArrayType.dimensions, List.replicate_succ],
        by decide, by decide⟩
    | primitiveArray array =>
      exact ⟨'[', List.replicate array.additionalDimensions '[' ++ array.element.render.toList,
        by simp [FieldType.render, RefType.render, ArrayType.dimensions, List.replicate_succ],
        by decide, by decide⟩

theorem readParameters_render {parameters : List FieldType}
    (valid : ∀ type ∈ parameters, type.Valid) (rest : List Char) :
    readParameters ((parameters.flatMap fun type => type.render.toList) ++ ')' :: rest) =
      .ok (parameters, rest) := by
  induction parameters with
  | nil => exact readParameters.eq_1 rest
  | cons type more ih =>
    obtain ⟨c, tail, starts, notClose, -⟩ := exists_render_cons type
    have read := readField_render (valid type (by simp))
      ((more.flatMap fun type => type.render.toList) ++ ')' :: rest)
    rw [starts, List.cons_append] at read
    rw [List.flatMap_cons, List.append_assoc, starts, List.cons_append,
      readParameters.eq_3 _ _ notClose]
    split
    · next failed =>
      rw [read] at failed
      cases failed
    · next found =>
      rw [read] at found
      cases found
      rw [ih fun other member => valid other (List.mem_cons_of_mem type member)]
      rfl

theorem readMethod_render {descriptor : MethodDescriptor} (valid : descriptor.Valid)
    (rest : List Char) :
    readMethod (descriptor.render.toList ++ rest) = .ok (descriptor, rest) := by
  obtain ⟨parameters, returnType⟩ := descriptor
  obtain ⟨validParameters, validReturn⟩ := valid
  have opens : ∀ ending : String,
      ("(" ++ String.join (parameters.map FieldType.render) ++ ")" ++ ending).toList ++ rest =
        '(' :: ((parameters.flatMap fun type => type.render.toList) ++ ')' ::
          (ending.toList ++ rest)) := by
    intro ending
    simp [String.toList_join, List.flatMap_map]
  have readAll := readParameters_render validParameters
  cases returnType with
  | none =>
    have void : ("V" : String).toList = ['V'] := by simp
    rw [MethodDescriptor.render, opens, readMethod.eq_1, readAll]
    simp only [bind, Except.bind, void, List.cons_append, List.nil_append, pure, Except.pure]
  | some type =>
    obtain ⟨c, tail, starts, -, notVoid⟩ := exists_render_cons type
    have read := readField_render (validReturn type rfl) rest
    rw [starts, List.cons_append] at read
    rw [MethodDescriptor.render, opens, readMethod.eq_1, readAll]
    simp only [bind, Except.bind, starts, List.cons_append]
    split
    · next same => exact absurd (List.cons.inj same).1 notVoid
    · rw [read]
      rfl

/-- A reader that reads all of a text's characters parses the text. -/
theorem parseWith_eq_ok {α : Type} {reader : Reader α} {text : String} {value : α}
    (read : reader text.toList = .ok (value, [])) : parseWith reader text = .ok value := by
  simp only [parseWith, read]

end Descriptor

/-! ## Parsing what rendering writes -/

theorem FieldType.parse_render {type : FieldType} (valid : type.Valid) :
    FieldType.parse type.render = .ok type :=
  Descriptor.parseWith_eq_ok (by simpa using Descriptor.readField_render valid [])

theorem RefType.parse_render {type : RefType} (valid : type.Valid) :
    RefType.parse type.render = .ok type :=
  Descriptor.parseWith_eq_ok (by simpa using Descriptor.readRef_render valid [])

theorem MethodDescriptor.parse_render {descriptor : MethodDescriptor} (valid : descriptor.Valid) :
    MethodDescriptor.parse descriptor.render = .ok descriptor :=
  Descriptor.parseWith_eq_ok (by simpa using Descriptor.readMethod_render valid [])

/-- The text of a class constant names the type it was written for: the class name of a class,
which cannot start with `[`, and the descriptor of an array, which does. -/
theorem RefType.ofClassText_classConstantText {type : RefType} (valid : type.Valid) :
    RefType.ofClassText type.classConstantText = .ok type := by
  cases type with
  | object name =>
    have notArray : name.text.startsWith "[" = false := by
      simpa using fun opening => valid.bracket_not_mem (opening.subset (by simp))
    simp [RefType.ofClassText, RefType.classConstantText, notArray, valid.ofString]
  | objectArray array =>
    have isArray : (RefType.objectArray array).render.startsWith "[" = true := by
      simp [RefType.render, ArrayType.dimensions, List.replicate_succ]
    simp [RefType.ofClassText, RefType.classConstantText, isArray, RefType.parse_render valid]
  | primitiveArray array =>
    have isArray : (RefType.primitiveArray array).render.startsWith "[" = true := by
      simp [RefType.render, ArrayType.dimensions, List.replicate_succ]
    simp [RefType.ofClassText, RefType.classConstantText, isArray, RefType.parse_render valid]

/-! ## Reading only what rendering writes -/

theorem BinaryName.ofString_eq_ok {text : String} {name : BinaryName}
    (checked : BinaryName.ofString text = .ok name) : name.Valid ∧ name.text = text := by
  unfold BinaryName.ofString at checked
  cases problem : binaryNameProblem text with
  | some _ => simp [problem] at checked
  | none =>
    simp only [problem, Except.ok.injEq] at checked
    subst checked
    exact ⟨problem, rfl⟩

namespace Descriptor

theorem mapRead_eq_ok {α β : Type} {f : α → β} {read : Except Stuck (α × List Char)}
    {value : β} {rest : List Char} (mapped : mapRead f read = .ok (value, rest)) :
    ∃ original, read = .ok (original, rest) ∧ value = f original := by
  cases read with
  | error stuck => cases mapped
  | ok found =>
    simp only [mapRead, Except.map, Except.ok.injEq, Prod.mk.injEq] at mapped
    exact ⟨found.1, by rw [← mapped.2], mapped.1.symm⟩

theorem ofLetter?_eq_some {c : Char} {base : BaseType} (found : BaseType.ofLetter? c = some base) :
    base.letter = c := by
  simpa using List.find?_some found

theorem readBase_eq_ok {text rest : List Char} {base : BaseType}
    (read : readBase text = .ok (base, rest)) : text = base.letter :: rest := by
  match text with
  | [] => cases read
  | c :: more =>
    simp only [readBase] at read
    cases letter : BaseType.ofLetter? c with
    | none => simp [letter] at read
    | some found =>
      simp only [letter, Except.ok.injEq, Prod.mk.injEq] at read
      obtain ⟨rfl, rfl⟩ := read
      rw [ofLetter?_eq_some letter]

theorem splitAtSemicolon_eq_some {text name after : List Char}
    (split : splitAtSemicolon text = some (name, after)) : text = name ++ ';' :: after := by
  induction text generalizing name after with
  | nil => simp [splitAtSemicolon] at split
  | cons c rest ih =>
    unfold splitAtSemicolon at split
    by_cases semicolon : c = ';'
    · simp only [semicolon, if_true, Option.some.injEq, Prod.mk.injEq] at split
      obtain ⟨rfl, rfl⟩ := split
      simp [semicolon]
    · simp only [semicolon, if_false, Option.map_eq_some_iff, Prod.mk.injEq] at split
      obtain ⟨found, isSplit, rfl, rfl⟩ := split
      rw [ih isSplit]
      rfl

/-- A class name read is valid, and was written as its descriptor. -/
theorem readClassName_eq_ok {text rest : List Char} {name : BinaryName}
    (read : readClassName text = .ok (name, rest)) :
    name.Valid ∧ text = name.render.toList ++ rest := by
  unfold readClassName at read
  split at read
  · rename_i more
    cases split : splitAtSemicolon more with
    | none => simp [split] at read
    | some found =>
      obtain ⟨part, after⟩ := found
      simp only [split] at read
      cases checked : BinaryName.ofString (String.ofList part) with
      | error problem => simp [checked] at read
      | ok binary =>
        simp only [checked, Except.ok.injEq, Prod.mk.injEq] at read
        obtain ⟨rfl, rfl⟩ := read
        obtain ⟨valid, sameText⟩ := BinaryName.ofString_eq_ok checked
        refine ⟨valid, ?_⟩
        rw [render_append, sameText, String.toList_ofList, splitAtSemicolon_eq_some split]
  · cases read

/-- The brackets in front of a text are as many brackets as there are. -/
theorem takeWhile_bracket (text : List Char) :
    text.takeWhile (· == '[') = List.replicate (text.takeWhile (· == '[')).length '[' :=
  List.eq_replicate_iff.mpr ⟨rfl, fun c member => by
    simpa using List.all_eq_true.mp List.all_takeWhile c member⟩

/-- The element of a reference type read after `dimensions` brackets, together with the
brackets, is the rendering of the type read. -/
theorem readRefElement_eq_ok {dimensions : Nat} (fits : dimensions ≤ 255) {text rest : List Char}
    {type : RefType} (read : readRefElement dimensions text = .ok (type, rest)) :
    type.Valid ∧ List.replicate dimensions '[' ++ text = type.render.toList ++ rest := by
  unfold readRefElement at read
  split at read
  · -- a class name: the class itself, or the element of an array of that class
    obtain ⟨name, found, rfl⟩ := mapRead_eq_ok read
    obtain ⟨valid, rendered⟩ := readClassName_eq_ok found
    cases dimensions with
    | zero => exact ⟨valid, by rw [rendered]; rfl⟩
    | succ extra =>
      refine ⟨⟨fits, valid⟩, ?_⟩
      rw [rendered]
      simp [RefType.render, ArrayType.dimensions]
  · split at read
    · cases read
    · -- a primitive letter after at least one bracket
      rename_i extra
      obtain ⟨base, found, rfl⟩ := mapRead_eq_ok read
      refine ⟨fits, ?_⟩
      rw [readBase_eq_ok found]
      simp [RefType.render, ArrayType.dimensions, toList_render_base]

/-- A reference type read is valid, and was written as its descriptor. -/
theorem readRef_eq_ok {text rest : List Char} {type : RefType}
    (read : readRef text = .ok (type, rest)) : type.Valid ∧ text = type.render.toList ++ rest := by
  unfold readRef at read
  split at read
  · cases read
  · rename_i fits
    obtain ⟨valid, rendered⟩ := readRefElement_eq_ok (Nat.le_of_not_lt fits) read
    refine ⟨valid, ?_⟩
    rw [← rendered, ← takeWhile_bracket, List.takeWhile_append_dropWhile]

/-- A field type read is valid, and was written as its descriptor. -/
theorem readField_eq_ok {text rest : List Char} {type : FieldType}
    (read : readField text = .ok (type, rest)) : type.Valid ∧ text = type.render.toList ++ rest := by
  unfold readField at read
  split at read
  · obtain ⟨found, isRead, rfl⟩ := mapRead_eq_ok read
    exact readRef_eq_ok isRead
  · obtain ⟨found, isRead, rfl⟩ := mapRead_eq_ok read
    exact readRef_eq_ok isRead
  · obtain ⟨base, isRead, rfl⟩ := mapRead_eq_ok read
    refine ⟨trivial, ?_⟩
    rw [readBase_eq_ok isRead, FieldType.render, toList_render_base]
    rfl

/-- Parameters read are valid, and were written one after the other before the `)`. -/
theorem readParameters_eq_ok {text rest : List Char} {parameters : List FieldType}
    (read : readParameters text = .ok (parameters, rest)) :
    (∀ type ∈ parameters, type.Valid) ∧
      text = (parameters.flatMap fun type => type.render.toList) ++ ')' :: rest := by
  fun_induction readParameters text generalizing parameters rest with
  | case1 after =>
    cases read
    exact ⟨by simp, rfl⟩
  | case2 => cases read
  | case3 c more _ stuck _ => cases read
  | case4 c more _ type after found _ ih =>
    obtain ⟨others, readOthers, rfl⟩ := mapRead_eq_ok read
    obtain ⟨valid, rendered⟩ := readField_eq_ok found
    obtain ⟨othersValid, othersRendered⟩ := ih readOthers
    refine ⟨fun other member => ?_, ?_⟩
    · rcases List.mem_cons.mp member with rfl | later
      · exact valid
      · exact othersValid other later
    · rw [rendered, othersRendered, List.flatMap_cons, List.append_assoc]

/-- A method descriptor read is valid, and was written as its descriptor. -/
theorem readMethod_eq_ok {text rest : List Char} {descriptor : MethodDescriptor}
    (read : readMethod text = .ok (descriptor, rest)) :
    descriptor.Valid ∧ text = descriptor.render.toList ++ rest := by
  unfold readMethod at read
  split at read
  · obtain ⟨⟨parameters, afterParameters⟩, readAll, read⟩ := bind_eq_ok read
    obtain ⟨parametersValid, parametersRendered⟩ := readParameters_eq_ok readAll
    dsimp only at read
    split at read
    · -- `V` stands for no return value
      cases read
      refine ⟨⟨parametersValid, by simp⟩, ?_⟩
      rw [parametersRendered]
      simp [MethodDescriptor.render, String.toList_join, List.flatMap_map]
    · obtain ⟨⟨returnType, after⟩, readReturn, read⟩ := bind_eq_ok read
      cases read
      obtain ⟨returnValid, returnRendered⟩ := readField_eq_ok readReturn
      refine ⟨⟨parametersValid, by simpa using returnValid⟩, ?_⟩
      rw [parametersRendered, returnRendered]
      simp [MethodDescriptor.render, String.toList_join, List.flatMap_map]
  · cases read

/-- A text parses only if the reader reads all of it. -/
theorem read_of_parseWith {α : Type} {reader : Reader α} {text : String} {value : α}
    (parsed : parseWith reader text = .ok value) : reader text.toList = .ok (value, []) := by
  unfold parseWith at parsed
  dsimp only at parsed
  split at parsed
  · cases parsed
  · rename_i found
    cases parsed
    exact found
  · cases parsed

end Descriptor

/-! ## Parsing accepts exactly the renderings -/

/-- A text that a reader reads whole is the rendering of what it read. -/
theorem eq_of_read_whole {text : String} {rendering : String}
    (whole : text.toList = rendering.toList ++ []) : rendering = text :=
  String.toList_inj.mp (by rw [whole, List.append_nil])

theorem FieldType.parse_eq_ok_iff {text : String} {type : FieldType} :
    FieldType.parse text = .ok type ↔ type.Valid ∧ type.render = text := by
  constructor
  · intro parsed
    obtain ⟨valid, whole⟩ := Descriptor.readField_eq_ok (Descriptor.read_of_parseWith parsed)
    exact ⟨valid, eq_of_read_whole whole⟩
  · rintro ⟨valid, rfl⟩
    exact FieldType.parse_render valid

theorem RefType.parse_eq_ok_iff {text : String} {type : RefType} :
    RefType.parse text = .ok type ↔ type.Valid ∧ type.render = text := by
  constructor
  · intro parsed
    obtain ⟨valid, whole⟩ := Descriptor.readRef_eq_ok (Descriptor.read_of_parseWith parsed)
    exact ⟨valid, eq_of_read_whole whole⟩
  · rintro ⟨valid, rfl⟩
    exact RefType.parse_render valid

theorem MethodDescriptor.parse_eq_ok_iff {text : String} {descriptor : MethodDescriptor} :
    MethodDescriptor.parse text = .ok descriptor ↔ descriptor.Valid ∧ descriptor.render = text := by
  constructor
  · intro parsed
    obtain ⟨valid, whole⟩ := Descriptor.readMethod_eq_ok (Descriptor.read_of_parseWith parsed)
    exact ⟨valid, eq_of_read_whole whole⟩
  · rintro ⟨valid, rfl⟩
    exact MethodDescriptor.parse_render valid

/-- The text of a class constant reads as a type exactly when it is the text written for that
type: a text starting with `[` only as an array, any other only as a class. -/
theorem RefType.ofClassText_eq_ok_iff {text : String} {type : RefType} :
    RefType.ofClassText text = .ok type ↔ type.Valid ∧ type.classConstantText = text := by
  constructor
  · intro read
    unfold RefType.ofClassText at read
    split at read
    · rename_i isArray
      split at read
      · rename_i parsed
        cases read
        obtain ⟨valid, rendered⟩ := RefType.parse_eq_ok_iff.mp parsed
        refine ⟨valid, ?_⟩
        cases type with
        | object name =>
          -- the descriptor of a class starts with `L`, not with `[`
          rw [← rendered] at isArray
          simp [RefType.render, BinaryName.render] at isArray
        | objectArray _ | primitiveArray _ => exact rendered
      · cases read
    · split at read
      · rename_i checked
        cases read
        exact BinaryName.ofString_eq_ok checked
      · cases read
  · rintro ⟨valid, rfl⟩
    exact RefType.ofClassText_classConstantText valid

/-- **Parsing a descriptor inverts rendering.** A field type, a reference type or a method
descriptor parses from a text exactly when it is valid (class names that their check accepts,
arrays of at most 255 dimensions) and the text is its rendering; likewise the text of a class
constant reads as a reference type exactly when it is the text written for that type. -/
theorem descriptor_parsing_inverts_rendering :
    (∀ (text : String) (type : FieldType),
      FieldType.parse text = .ok type ↔ type.Valid ∧ type.render = text) ∧
    (∀ (text : String) (type : RefType),
      RefType.parse text = .ok type ↔ type.Valid ∧ type.render = text) ∧
    (∀ (text : String) (descriptor : MethodDescriptor),
      MethodDescriptor.parse text = .ok descriptor ↔ descriptor.Valid ∧ descriptor.render = text) ∧
    (∀ (text : String) (type : RefType),
      RefType.ofClassText text = .ok type ↔ type.Valid ∧ type.classConstantText = text) :=
  ⟨fun _ _ => FieldType.parse_eq_ok_iff, fun _ _ => RefType.parse_eq_ok_iff,
    fun _ _ => MethodDescriptor.parse_eq_ok_iff, fun _ _ => RefType.ofClassText_eq_ok_iff⟩

end ClassKit
