import ClassKit.Patch.Rename

/-!
# Renaming is substitution of class names

Class names occur in many places of a class: its own name, its superclass and interfaces, the
descriptors of its fields and methods, field constants, declared exceptions, catch types, and the
operands of instructions, array element classes and array-typed method owners included.
`Class.classNames` lists these occurrences in order, one entry per occurrence; it is written case
by case, so that a reader can check that no place is left out.

Renaming by `f` replaces every occurrence `n` by `f n` (`Class.classNames_rename`) and changes
nothing else: a class is determined by its occurrences together with its *shape*, the class with
every occurrence replaced by one placeholder name (`Class.eq_of_shape_eq`), and renaming keeps the
shape. The two facts characterise the renamed class (`Class.rename_eq_iff`). Renaming twice is
renaming once by the composite (`Class.rename_rename`), renaming depends only on the names that
occur (`Class.rename_congr`), and renaming by an empty table changes nothing.

Each type of the model has the same three lemmas: what renaming does to the occurrences
(`classNames_rename`), that two renamings compose (`rename_rename`), and that shape and
occurrences determine a value (`eq_of_shape_eq`). Lists and options are handled once, in the
first section.
-/

namespace ClassKit

/-! ## Lists and options of renamable values -/

section Containers

variable {α : Type} {shape : α → α} {names : α → List BinaryName}

/-- Lists of values with equal shapes have equally many occurrences, when the shape of a value
fixes how many occurrences it has. -/
theorem length_flatMap_eq_of_shape_eq
    (count : ∀ {x y : α}, shape x = shape y → (names x).length = (names y).length) :
    ∀ {xs ys : List α}, xs.map shape = ys.map shape →
      (xs.flatMap names).length = (ys.flatMap names).length
  | [], [], _ => rfl
  | [], _ :: _, shapes | _ :: _, [], shapes => by simp at shapes
  | x :: xs, y :: ys, shapes => by
    simp only [List.map_cons, List.cons.injEq] at shapes
    simp only [List.flatMap_cons, List.length_append]
    rw [count shapes.1, length_flatMap_eq_of_shape_eq count shapes.2]

/-- Lists of values with equal shapes and equal occurrences are equal, when shape and occurrences
determine a single value and the shape fixes how many occurrences there are. -/
theorem list_eq_of_shape_eq
    (count : ∀ {x y : α}, shape x = shape y → (names x).length = (names y).length)
    (determined : ∀ {x y : α}, shape x = shape y → names x = names y → x = y) :
    ∀ {xs ys : List α}, xs.map shape = ys.map shape → xs.flatMap names = ys.flatMap names →
      xs = ys
  | [], [], _, _ => rfl
  | [], _ :: _, shapes, _ | _ :: _, [], shapes, _ => by simp at shapes
  | x :: xs, y :: ys, shapes, occurrences => by
    simp only [List.map_cons, List.cons.injEq] at shapes
    simp only [List.flatMap_cons] at occurrences
    -- the head's occurrences are a prefix of known length, so both parts agree
    obtain ⟨head, tail⟩ := List.append_inj occurrences (count shapes.1)
    rw [determined shapes.1 head, list_eq_of_shape_eq count determined shapes.2 tail]

theorem option_eq_of_shape_eq
    (determined : ∀ {x y : α}, shape x = shape y → names x = names y → x = y) :
    ∀ {x y : Option α}, x.map shape = y.map shape →
      (x.map names).getD [] = (y.map names).getD [] → x = y
  | none, none, _, _ => rfl
  | none, some _, shapes, _ | some _, none, shapes, _ => by simp at shapes
  | some x, some y, shapes, occurrences => by
    simp only [Option.map_some, Option.some.injEq, Option.getD_some] at shapes occurrences
    rw [determined shapes occurrences]

/-- Renaming to one placeholder keeps the number of occurrences, so equal shapes have equally many
occurrences. -/
theorem length_eq_of_shape_eq {rename : (BinaryName → BinaryName) → α → α}
    (classNames_rename : ∀ f x, names (rename f x) = (names x).map f) {placeholder : BinaryName}
    {x y : α} (shapes : rename (fun _ => placeholder) x = rename (fun _ => placeholder) y) :
    (names x).length = (names y).length := by
  have counted := congrArg (fun value => (names value).length) shapes
  simpa only [classNames_rename, List.length_map] using counted

end Containers

/-! ## Types and descriptors -/

namespace RefType

/-- The class names a reference type mentions: the class itself, or the element class of an
array of objects. -/
def classNames : RefType → List BinaryName
  | object name => [name]
  | objectArray array => [array.element]
  | primitiveArray _ => []

@[simp] theorem classNames_map (f : BinaryName → BinaryName) (type : RefType) :
    (type.map f).classNames = type.classNames.map f := by
  cases type <;> rfl

@[simp] theorem map_map (f g : BinaryName → BinaryName) (type : RefType) :
    (type.map f).map g = type.map (g ∘ f) := by
  cases type <;> rfl

theorem eq_of_shape_eq {placeholder : BinaryName} {type other : RefType}
    (shapes : type.map (fun _ => placeholder) = other.map (fun _ => placeholder))
    (names : type.classNames = other.classNames) : type = other := by
  rcases type with name | ⟨dimensions, element⟩ | array <;>
    rcases other with otherName | ⟨otherDimensions, otherElement⟩ | otherArray <;>
    simp_all [map, classNames, ArrayType.map]

end RefType

namespace FieldType

/-- The class names a field type mentions; a primitive type mentions none. -/
def classNames : FieldType → List BinaryName
  | base _ => []
  | ref type => type.classNames

@[simp] theorem classNames_map (f : BinaryName → BinaryName) (type : FieldType) :
    (type.map f).classNames = type.classNames.map f := by
  cases type <;> simp [map, classNames]

@[simp] theorem map_map (f g : BinaryName → BinaryName) (type : FieldType) :
    (type.map f).map g = type.map (g ∘ f) := by
  cases type <;> simp [map]

theorem eq_of_shape_eq {placeholder : BinaryName} {type other : FieldType}
    (shapes : type.map (fun _ => placeholder) = other.map (fun _ => placeholder))
    (names : type.classNames = other.classNames) : type = other := by
  cases type with
  | base base => cases other <;> simp_all [map]
  | ref type =>
    cases other with
    | base _ => simp [map] at shapes
    | ref other =>
      simp only [map, ref.injEq] at shapes
      rw [RefType.eq_of_shape_eq shapes names]

end FieldType

namespace MethodDescriptor

/-- The class names of the parameter types, then of the return type. -/
def classNames (descriptor : MethodDescriptor) : List BinaryName :=
  descriptor.parameters.flatMap FieldType.classNames ++
    (descriptor.returnType.map FieldType.classNames).getD []

@[simp] theorem classNames_map (f : BinaryName → BinaryName) (descriptor : MethodDescriptor) :
    (descriptor.map f).classNames = descriptor.classNames.map f := by
  obtain ⟨parameters, returnType⟩ := descriptor
  cases returnType <;> simp [map, classNames, List.flatMap_map, List.map_flatMap]

@[simp] theorem map_map (f g : BinaryName → BinaryName) (descriptor : MethodDescriptor) :
    (descriptor.map f).map g = descriptor.map (g ∘ f) := by
  simp [map, Function.comp_def]

theorem eq_of_shape_eq {placeholder : BinaryName} {descriptor other : MethodDescriptor}
    (shapes : descriptor.map (fun _ => placeholder) = other.map (fun _ => placeholder))
    (names : descriptor.classNames = other.classNames) : descriptor = other := by
  obtain ⟨parameters, returnType⟩ := descriptor
  obtain ⟨otherParameters, otherReturnType⟩ := other
  simp only [map, mk.injEq] at shapes
  have count : ∀ {x y : FieldType}, x.map (fun _ => placeholder) = y.map (fun _ => placeholder) →
      x.classNames.length = y.classNames.length :=
    length_eq_of_shape_eq FieldType.classNames_map
  obtain ⟨sameParameters, sameReturn⟩ :=
    List.append_inj names (length_flatMap_eq_of_shape_eq count shapes.1)
  rw [list_eq_of_shape_eq count FieldType.eq_of_shape_eq shapes.1 sameParameters,
    option_eq_of_shape_eq FieldType.eq_of_shape_eq shapes.2 sameReturn]

end MethodDescriptor

/-! ## Instructions -/

namespace Literal

/-- The class names a literal mentions: only a class literal mentions one. -/
def classNames : Literal → List BinaryName
  | classRef type => type.classNames
  | integer _ | float _ | long _ | double _ | string _ => []

@[simp] theorem classNames_rename (f : BinaryName → BinaryName) (literal : Literal) :
    (literal.rename f).classNames = literal.classNames.map f := by
  cases literal <;> simp [rename, classNames]

@[simp] theorem rename_rename (f g : BinaryName → BinaryName) (literal : Literal) :
    (literal.rename f).rename g = literal.rename (g ∘ f) := by
  cases literal <;> simp [rename]

theorem eq_of_shape_eq {placeholder : BinaryName} {literal other : Literal}
    (shapes : literal.rename (fun _ => placeholder) = other.rename (fun _ => placeholder))
    (names : literal.classNames = other.classNames) : literal = other := by
  cases literal <;> cases other <;> simp_all [rename, classNames]
  exact RefType.eq_of_shape_eq shapes names

end Literal

namespace FieldRef

/-- The owner of a field, then the classes of its type. -/
def classNames (ref : FieldRef) : List BinaryName := ref.owner :: ref.descriptor.classNames

@[simp] theorem classNames_rename (f : BinaryName → BinaryName) (ref : FieldRef) :
    (ref.rename f).classNames = ref.classNames.map f := by
  simp [rename, classNames]

@[simp] theorem rename_rename (f g : BinaryName → BinaryName) (ref : FieldRef) :
    (ref.rename f).rename g = ref.rename (g ∘ f) := by
  simp [rename]

theorem eq_of_shape_eq {placeholder : BinaryName} {ref other : FieldRef}
    (shapes : ref.rename (fun _ => placeholder) = other.rename (fun _ => placeholder))
    (names : ref.classNames = other.classNames) : ref = other := by
  obtain ⟨owner, name, descriptor⟩ := ref
  obtain ⟨otherOwner, otherName, otherDescriptor⟩ := other
  simp only [rename, mk.injEq, true_and] at shapes
  simp only [classNames, List.cons.injEq] at names
  rw [names.1, shapes.1, FieldType.eq_of_shape_eq shapes.2 names.2]

end FieldRef

namespace MethodRef

/-- The classes of the owner, then of the descriptor. -/
def classNames (ref : MethodRef) : List BinaryName :=
  ref.owner.classNames ++ ref.descriptor.classNames

@[simp] theorem classNames_rename (f : BinaryName → BinaryName) (ref : MethodRef) :
    (ref.rename f).classNames = ref.classNames.map f := by
  simp [rename, classNames]

@[simp] theorem rename_rename (f g : BinaryName → BinaryName) (ref : MethodRef) :
    (ref.rename f).rename g = ref.rename (g ∘ f) := by
  simp [rename]

theorem eq_of_shape_eq {placeholder : BinaryName} {ref other : MethodRef}
    (shapes : ref.rename (fun _ => placeholder) = other.rename (fun _ => placeholder))
    (names : ref.classNames = other.classNames) : ref = other := by
  obtain ⟨owner, name, descriptor, isInterface⟩ := ref
  obtain ⟨otherOwner, otherName, otherDescriptor, otherIsInterface⟩ := other
  simp only [rename, mk.injEq] at shapes
  obtain ⟨sameOwner, sameDescriptor⟩ :=
    List.append_inj names (length_eq_of_shape_eq RefType.classNames_map shapes.1)
  rw [RefType.eq_of_shape_eq shapes.1 sameOwner, shapes.2.1,
    MethodDescriptor.eq_of_shape_eq shapes.2.2.1 sameDescriptor, shapes.2.2.2]

end MethodRef

namespace Instruction

/-- The class names an instruction mentions: those of its literal, field, method or type
operand. -/
def classNames : Instruction → List BinaryName
  | ldc literal => literal.classNames
  | field _ ref => ref.classNames
  | invoke _ ref => ref.classNames
  | typeOp _ type | multiANewArray type _ => type.classNames
  | nop | aconstNull | iconst _ | lconst _ | fconst _ | dconst _ | bipush _ | sipush _
  | load .. | store .. | iinc .. | ret _ | arrayLoad _ | arrayStore _ | stack _ | arith ..
  | neg _ | shift .. | bitwise .. | convert _ | lcmp | fcmp _ | dcmp _ | newArray _
  | arrayLength | monitorEnter | monitorExit => []

@[simp] theorem classNames_rename (f : BinaryName → BinaryName) (instruction : Instruction) :
    (instruction.rename f).classNames = instruction.classNames.map f := by
  cases instruction <;> simp [rename, classNames]

@[simp] theorem rename_rename (f g : BinaryName → BinaryName) (instruction : Instruction) :
    (instruction.rename f).rename g = instruction.rename (g ∘ f) := by
  cases instruction <;> simp [rename]

theorem eq_of_shape_eq {placeholder : BinaryName} {instruction other : Instruction}
    (shapes : instruction.rename (fun _ => placeholder) = other.rename (fun _ => placeholder))
    (names : instruction.classNames = other.classNames) : instruction = other := by
  -- the shape fixes the constructor and every operand but the named classes; what is left are
  -- the five constructors with a class operand, settled by the lemma of that operand
  cases instruction <;> cases other <;> simp_all [rename, classNames]
  case ldc.ldc => exact Literal.eq_of_shape_eq shapes names
  case field.field => exact FieldRef.eq_of_shape_eq shapes.2 names
  case invoke.invoke => exact MethodRef.eq_of_shape_eq shapes.2 names
  case typeOp.typeOp => exact RefType.eq_of_shape_eq shapes.2 names
  case multiANewArray.multiANewArray => exact RefType.eq_of_shape_eq shapes.1 names

end Instruction

/-! ## Bodies -/

namespace Entry

/-- The class names of an entry: labels and branches have none. -/
def classNames : Entry → List BinaryName
  | instruction operation => operation.classNames
  | label _ | branch _ => []

@[simp] theorem classNames_rename (f : BinaryName → BinaryName) (entry : Entry) :
    (entry.rename f).classNames = entry.classNames.map f := by
  cases entry <;> simp [rename, classNames]

@[simp] theorem rename_rename (f g : BinaryName → BinaryName) (entry : Entry) :
    (entry.rename f).rename g = entry.rename (g ∘ f) := by
  cases entry <;> simp [rename]

theorem eq_of_shape_eq {placeholder : BinaryName} {entry other : Entry}
    (shapes : entry.rename (fun _ => placeholder) = other.rename (fun _ => placeholder))
    (names : entry.classNames = other.classNames) : entry = other := by
  cases entry <;> cases other <;> simp_all [rename, classNames]
  exact Instruction.eq_of_shape_eq shapes names

end Entry

namespace Handler

/-- The catch type of a handler, if it has one. -/
def classNames (handler : Handler) : List BinaryName := handler.catchType.toList

@[simp] theorem classNames_rename (f : BinaryName → BinaryName) (handler : Handler) :
    (handler.rename f).classNames = handler.classNames.map f := by
  obtain ⟨start, stop, target, catchType⟩ := handler
  cases catchType <;> rfl

@[simp] theorem rename_rename (f g : BinaryName → BinaryName) (handler : Handler) :
    (handler.rename f).rename g = handler.rename (g ∘ f) := by
  simp [rename]

theorem eq_of_shape_eq {placeholder : BinaryName} {handler other : Handler}
    (shapes : handler.rename (fun _ => placeholder) = other.rename (fun _ => placeholder))
    (names : handler.classNames = other.classNames) : handler = other := by
  obtain ⟨start, stop, target, catchType⟩ := handler
  obtain ⟨otherStart, otherStop, otherTarget, otherCatchType⟩ := other
  simp only [rename, mk.injEq] at shapes
  simp only [classNames] at names
  have sameCatchType : catchType = otherCatchType := by
    simpa only [Option.head?_toList] using congrArg List.head? names
  rw [shapes.1, shapes.2.1, shapes.2.2.1, sameCatchType]

end Handler

namespace Body

/-- The class names of the entries in order, then of the handlers' catch types. -/
def classNames (body : Body) : List BinaryName :=
  body.entries.toList.flatMap Entry.classNames ++ body.handlers.flatMap Handler.classNames

@[simp] theorem classNames_rename (f : BinaryName → BinaryName) (body : Body) :
    (body.rename f).classNames = body.classNames.map f := by
  simp [rename, classNames, List.flatMap_map, List.map_flatMap]

@[simp] theorem rename_rename (f g : BinaryName → BinaryName) (body : Body) :
    (body.rename f).rename g = body.rename (g ∘ f) := by
  simp [rename, Function.comp_def]

theorem eq_of_shape_eq {placeholder : BinaryName} {body other : Body}
    (shapes : body.rename (fun _ => placeholder) = other.rename (fun _ => placeholder))
    (names : body.classNames = other.classNames) : body = other := by
  obtain ⟨entries, handlers⟩ := body
  obtain ⟨otherEntries, otherHandlers⟩ := other
  simp only [rename, mk.injEq] at shapes
  have entryShapes := congrArg Array.toList shapes.1
  simp only [Array.toList_map] at entryShapes
  have entryCount : ∀ {x y : Entry}, x.rename (fun _ => placeholder) =
      y.rename (fun _ => placeholder) → x.classNames.length = y.classNames.length :=
    length_eq_of_shape_eq Entry.classNames_rename
  obtain ⟨sameEntries, sameHandlers⟩ :=
    List.append_inj names (length_flatMap_eq_of_shape_eq entryCount entryShapes)
  have handlerCount : ∀ {x y : Handler}, x.rename (fun _ => placeholder) =
      y.rename (fun _ => placeholder) → x.classNames.length = y.classNames.length :=
    length_eq_of_shape_eq Handler.classNames_rename
  rw [Array.toList_inj.mp
      (list_eq_of_shape_eq entryCount Entry.eq_of_shape_eq entryShapes sameEntries),
    list_eq_of_shape_eq handlerCount Handler.eq_of_shape_eq shapes.2 sameHandlers]

end Body

/-! ## Classes -/

namespace Field

/-- The classes of a field's type, then of its constant. -/
def classNames (field : Field) : List BinaryName :=
  field.descriptor.classNames ++ (field.constantValue.map Literal.classNames).getD []

@[simp] theorem classNames_rename (f : BinaryName → BinaryName) (field : Field) :
    (field.rename f).classNames = field.classNames.map f := by
  obtain ⟨flags, name, descriptor, constantValue⟩ := field
  cases constantValue <;> simp [rename, classNames]

@[simp] theorem rename_rename (f g : BinaryName → BinaryName) (field : Field) :
    (field.rename f).rename g = field.rename (g ∘ f) := by
  simp [rename, Function.comp_def]

theorem eq_of_shape_eq {placeholder : BinaryName} {field other : Field}
    (shapes : field.rename (fun _ => placeholder) = other.rename (fun _ => placeholder))
    (names : field.classNames = other.classNames) : field = other := by
  obtain ⟨flags, name, descriptor, constantValue⟩ := field
  obtain ⟨otherFlags, otherName, otherDescriptor, otherConstantValue⟩ := other
  simp only [rename, mk.injEq] at shapes
  obtain ⟨sameDescriptor, sameConstant⟩ :=
    List.append_inj names (length_eq_of_shape_eq FieldType.classNames_map shapes.2.2.1)
  rw [shapes.1, shapes.2.1, FieldType.eq_of_shape_eq shapes.2.2.1 sameDescriptor,
    option_eq_of_shape_eq Literal.eq_of_shape_eq shapes.2.2.2 sameConstant]

end Field

namespace Method

/-- The classes of a method's descriptor, its declared exceptions, then its body. -/
def classNames (method : Method) : List BinaryName :=
  method.descriptor.classNames ++ method.exceptions ++ (method.body.map Body.classNames).getD []

@[simp] theorem classNames_rename (f : BinaryName → BinaryName) (method : Method) :
    (method.rename f).classNames = method.classNames.map f := by
  obtain ⟨flags, name, descriptor, exceptions, body⟩ := method
  cases body <;> simp [rename, classNames]

@[simp] theorem rename_rename (f g : BinaryName → BinaryName) (method : Method) :
    (method.rename f).rename g = method.rename (g ∘ f) := by
  simp [rename, Function.comp_def]

theorem eq_of_shape_eq {placeholder : BinaryName} {method other : Method}
    (shapes : method.rename (fun _ => placeholder) = other.rename (fun _ => placeholder))
    (names : method.classNames = other.classNames) : method = other := by
  obtain ⟨flags, name, descriptor, exceptions, body⟩ := method
  obtain ⟨otherFlags, otherName, otherDescriptor, otherExceptions, otherBody⟩ := other
  simp only [rename, mk.injEq] at shapes
  obtain ⟨sameFlags, sameName, descriptorShapes, exceptionShapes, bodyShapes⟩ := shapes
  simp only [classNames, List.append_assoc] at names
  obtain ⟨sameDescriptor, names⟩ :=
    List.append_inj names (length_eq_of_shape_eq MethodDescriptor.classNames_map descriptorShapes)
  obtain ⟨sameExceptions, sameBody⟩ :=
    List.append_inj names (by simpa using congrArg List.length exceptionShapes)
  rw [sameFlags, sameName, MethodDescriptor.eq_of_shape_eq descriptorShapes sameDescriptor,
    sameExceptions, option_eq_of_shape_eq Body.eq_of_shape_eq bodyShapes sameBody]

end Method

namespace Class

/-- Every occurrence of a class name in a class, in order: its name, its superclass, its
interfaces, then those of each field and each method. -/
def classNames (cls : Class) : List BinaryName :=
  cls.name :: cls.superName.toList ++ cls.interfaces ++ cls.fields.flatMap Field.classNames ++
    cls.methods.flatMap Method.classNames

/-- Renaming replaces every occurrence `n` of a class name by `f n`. -/
@[simp] theorem classNames_rename (f : BinaryName → BinaryName) (cls : Class) :
    (cls.rename f).classNames = cls.classNames.map f := by
  obtain ⟨major, minor, flags, name, superName, interfaces, fields, methods⟩ := cls
  cases superName <;> simp [rename, classNames, List.flatMap_map, List.map_flatMap]

/-- Renaming by `f` and then by `g` is renaming by their composite. -/
@[simp] theorem rename_rename (f g : BinaryName → BinaryName) (cls : Class) :
    (cls.rename f).rename g = cls.rename (g ∘ f) := by
  simp [rename, Function.comp_def]

/-- A class is determined by its shape and its occurrences of class names. -/
theorem eq_of_shape_eq {placeholder : BinaryName} {cls other : Class}
    (shapes : cls.rename (fun _ => placeholder) = other.rename (fun _ => placeholder))
    (names : cls.classNames = other.classNames) : cls = other := by
  obtain ⟨major, minor, flags, name, superName, interfaces, fields, methods⟩ := cls
  obtain ⟨otherMajor, otherMinor, otherFlags, otherName, otherSuperName, otherInterfaces,
    otherFields, otherMethods⟩ := other
  simp only [rename, mk.injEq] at shapes
  obtain ⟨sameMajor, sameMinor, sameFlags, -, superShapes, interfaceShapes, fieldShapes,
    methodShapes⟩ := shapes
  simp only [classNames, List.cons_append, List.append_assoc, List.cons.injEq] at names
  obtain ⟨sameName, names⟩ := names
  have superCount : superName.toList.length = otherSuperName.toList.length := by
    cases superName <;> cases otherSuperName <;> simp_all
  obtain ⟨sameSuper, names⟩ := List.append_inj names superCount
  obtain ⟨sameInterfaces, names⟩ :=
    List.append_inj names (by simpa using congrArg List.length interfaceShapes)
  have fieldCount : ∀ {x y : Field}, x.rename (fun _ => placeholder) =
      y.rename (fun _ => placeholder) → x.classNames.length = y.classNames.length :=
    length_eq_of_shape_eq Field.classNames_rename
  obtain ⟨sameFields, sameMethods⟩ :=
    List.append_inj names (length_flatMap_eq_of_shape_eq fieldCount fieldShapes)
  have methodCount : ∀ {x y : Method}, x.rename (fun _ => placeholder) =
      y.rename (fun _ => placeholder) → x.classNames.length = y.classNames.length :=
    length_eq_of_shape_eq Method.classNames_rename
  have sameSuper : superName = otherSuperName := by
    simpa only [Option.head?_toList] using congrArg List.head? sameSuper
  rw [sameMajor, sameMinor, sameFlags, sameName, sameSuper, sameInterfaces,
    list_eq_of_shape_eq fieldCount Field.eq_of_shape_eq fieldShapes sameFields,
    list_eq_of_shape_eq methodCount Method.eq_of_shape_eq methodShapes sameMethods]

/-- The renamed class is the class with the shape of the original whose occurrences are those of
the original, each renamed. -/
theorem rename_eq_iff {f : BinaryName → BinaryName} {cls result : Class}
    (placeholder : BinaryName) :
    cls.rename f = result ↔
      result.rename (fun _ => placeholder) = cls.rename (fun _ => placeholder) ∧
        result.classNames = cls.classNames.map f := by
  constructor
  · rintro rfl
    exact ⟨rename_rename f _ cls, classNames_rename f cls⟩
  · rintro ⟨shapes, names⟩
    have renamedShapes : (cls.rename f).rename (fun _ => placeholder) =
        result.rename (fun _ => placeholder) := by
      rw [rename_rename, shapes]
      rfl
    exact eq_of_shape_eq renamedShapes (by rw [classNames_rename, names])

/-- Renaming depends only on the names that occur. -/
theorem rename_congr {f g : BinaryName → BinaryName} {cls : Class}
    (agree : ∀ name ∈ cls.classNames, f name = g name) : cls.rename f = cls.rename g :=
  (rename_eq_iff BinaryName.object).mpr
    ⟨by rw [rename_rename]; rfl, by rw [classNames_rename, List.map_congr_left agree]⟩

/-- Renaming by the identity changes nothing. -/
theorem rename_id (cls : Class) : cls.rename id = cls :=
  (rename_eq_iff BinaryName.object).mpr ⟨rfl, (List.map_id _).symm⟩

end Class

/-! ## Renaming by a table -/

/-- A table without pairs renames nothing. -/
theorem renameBy_nil : renameBy [] = id := rfl

/-- Renaming a class by a table of pairs substitutes class names occurrence by occurrence: the
renamed class is exactly the class with the original's shape whose occurrences are the original's,
each looked up in the table. Renaming by one table and then by another is renaming once by the
composite, and an empty table changes nothing. -/
theorem rename_substitutes_class_names (table next : List (BinaryName × BinaryName))
    (cls : Class) :
    (∀ result placeholder, cls.rename (renameBy table) = result ↔
      result.rename (fun _ => placeholder) = cls.rename (fun _ => placeholder) ∧
        result.classNames = cls.classNames.map (renameBy table)) ∧
    (cls.rename (renameBy table)).rename (renameBy next) =
      cls.rename (fun name => renameBy next (renameBy table name)) ∧
    cls.rename (renameBy []) = cls :=
  ⟨fun _ placeholder => Class.rename_eq_iff placeholder, Class.rename_rename _ _ cls,
    renameBy_nil ▸ Class.rename_id cls⟩

end ClassKit
