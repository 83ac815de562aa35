import ClassKit.Descriptor.Basic

/-!
# Reading descriptors

Each reader takes the unread characters and returns the value read with the characters after it.
A failure remembers the unread characters at the point of failure; `parseWith` turns them into a
byte offset in the whole text, which is how errors report their position.

A whole descriptor must be consumed: anything left over is reported as trailing.
-/

namespace ClassKit

/-- A descriptor that could not be read, with the byte offset where reading stopped. -/
structure DescriptorError where
  position : Nat
  message : String
  deriving DecidableEq, Repr

namespace DescriptorError

def toText (err : DescriptorError) : String :=
  s!"{err.message} (at offset {err.position})"

end DescriptorError

namespace Descriptor

/-- A failure while reading: what went wrong, and what was still unread. -/
structure Stuck where
  rest : List Char
  message : String

/-- A reader of a prefix of the unread characters. -/
abbrev Reader (α : Type) := List Char → Except Stuck (α × List Char)

/-- Bytes taken by characters in UTF-8. -/
def utf8Length (cs : List Char) : Nat := (cs.map Char.utf8Size).foldr (· + ·) 0

/-- The failure for an unexpected character, or for the end of the text. -/
def unexpected (what : String) (rest : List Char) : Stuck :=
  match rest with
  | c :: _ => ⟨rest, s!"expected {what}, found '{c}'"⟩
  | [] => ⟨rest, s!"expected {what}, found end of descriptor"⟩

/-- Transforms the value read, keeping what is left unread. -/
def mapRead {α β : Type} (f : α → β) (read : Except Stuck (α × List Char)) :
    Except Stuck (β × List Char) :=
  read.map fun found => (f found.1, found.2)

theorem exists_of_mapRead {α β : Type} {f : α → β} {read : Except Stuck (α × List Char)}
    {value : β} {rest : List Char} (mapped : mapRead f read = .ok (value, rest)) :
    ∃ original, read = .ok (original, rest) := by
  cases read with
  | error stuck => cases mapped
  | ok found =>
    simp only [mapRead, Except.map, Except.ok.injEq, Prod.mk.injEq] at mapped
    exact ⟨found.1, by rw [← mapped.2]⟩

/-- Reads a primitive type letter. -/
def readBase : Reader BaseType
  | c :: rest =>
    match BaseType.ofLetter? c with
    | some base => .ok (base, rest)
    | none => .error (unexpected "a primitive type" (c :: rest))
  | [] => .error (unexpected "a primitive type" [])

/-- Splits off the text before the first `;`, dropping the `;`. -/
def splitAtSemicolon : List Char → Option (List Char × List Char)
  | [] => none
  | c :: rest =>
    if c = ';' then some ([], rest)
    else (splitAtSemicolon rest).map fun found => (c :: found.1, found.2)

/-- Reads `Lname;`. A bad name is reported where the name starts. -/
def readClassName : Reader BinaryName
  | 'L' :: rest =>
    match splitAtSemicolon rest with
    | none => .error ⟨rest, "class name is missing its ';'"⟩
    | some (name, after) =>
      match BinaryName.ofString (String.ofList name) with
      | .ok binary => .ok (binary, after)
      | .error problem => .error ⟨rest, problem⟩
  | other => .error (unexpected "'L'" other)

/-- Reads the element of a reference type with `dimensions` brackets already read. -/
def readRefElement (dimensions : Nat) : Reader RefType
  | 'L' :: rest =>
    mapRead (fun name => match dimensions with
        | 0 => .object name
        | extra + 1 => .objectArray ⟨extra, name⟩)
      (readClassName ('L' :: rest))
  | rest =>
    match dimensions with
    | 0 => .error (unexpected "'L' or '['" rest)
    | extra + 1 => mapRead (fun base => .primitiveArray ⟨extra, base⟩) (readBase rest)

/-- Reads a class type or an array type, allowing at most 255 dimensions. -/
def readRef : Reader RefType := fun text =>
  if (text.takeWhile (· == '[')).length > 255 then
    .error ⟨text.dropWhile (· == '['), "array has more than 255 dimensions"⟩
  else
    readRefElement (text.takeWhile (· == '[')).length (text.dropWhile (· == '['))

/-- Reads any field type. -/
def readField : Reader FieldType
  | 'L' :: rest => mapRead .ref (readRef ('L' :: rest))
  | '[' :: rest => mapRead .ref (readRef ('[' :: rest))
  | other => mapRead .base (readBase other)

/-! ## Readers consume what they read -/

theorem splitAtSemicolon_shorter {text name after : List Char}
    (split : splitAtSemicolon text = some (name, after)) : after.length < text.length := by
  induction text generalizing name after with
  | nil => simp [splitAtSemicolon] at split
  | cons c rest ih =>
    unfold splitAtSemicolon at split
    by_cases semicolon : c = ';'
    · simp only [semicolon, if_true, Option.some.injEq, Prod.mk.injEq] at split
      obtain ⟨-, rfl⟩ := split
      simp
    · simp only [semicolon, if_false, Option.map_eq_some_iff, Prod.mk.injEq] at split
      obtain ⟨found, isSplit, -, rfl⟩ := split
      have := ih isSplit
      simp only [List.length_cons]
      omega

theorem readBase_shorter {text rest : List Char} {base : BaseType}
    (read : readBase text = .ok (base, rest)) : rest.length < text.length := by
  match text with
  | [] => simp [readBase] at read
  | c :: more =>
    simp only [readBase] at read
    cases letter : BaseType.ofLetter? c with
    | none => simp [letter] at read
    | some found =>
      simp only [letter, Except.ok.injEq, Prod.mk.injEq] at read
      obtain ⟨-, rfl⟩ := read
      simp

theorem readClassName_shorter {text rest : List Char} {name : BinaryName}
    (read : readClassName text = .ok (name, rest)) : rest.length < text.length := by
  unfold readClassName at read
  split at read
  · rename_i more
    cases split : splitAtSemicolon more with
    | none => simp [split] at read
    | some found =>
      obtain ⟨part, after⟩ := found
      have shorter := splitAtSemicolon_shorter split
      simp only [split] at read
      cases checked : BinaryName.ofString (String.ofList part) with
      | error problem => simp [checked] at read
      | ok binary =>
        simp only [checked, Except.ok.injEq, Prod.mk.injEq] at read
        obtain ⟨-, rfl⟩ := read
        simp only [List.length_cons]
        omega
  · cases read

theorem dropWhile_length_le (p : Char → Bool) (text : List Char) :
    (text.dropWhile p).length ≤ text.length := by
  induction text with
  | nil => simp
  | cons c rest ih =>
    simp only [List.dropWhile_cons]
    split
    · simp only [List.length_cons]; omega
    · simp

theorem readRefElement_shorter {dimensions : Nat} {text rest : List Char} {type : RefType}
    (read : readRefElement dimensions text = .ok (type, rest)) : rest.length < text.length := by
  unfold readRefElement at read
  split at read
  · obtain ⟨name, found⟩ := exists_of_mapRead read
    exact readClassName_shorter found
  · split at read
    · cases read
    · obtain ⟨base, found⟩ := exists_of_mapRead read
      exact readBase_shorter found

theorem readRef_shorter {text rest : List Char} {type : RefType}
    (read : readRef text = .ok (type, rest)) : rest.length < text.length := by
  unfold readRef at read
  split at read
  · cases read
  · have := readRefElement_shorter read
    have := dropWhile_length_le (· == '[') text
    omega

theorem readField_shorter {text rest : List Char} {type : FieldType}
    (read : readField text = .ok (type, rest)) : rest.length < text.length := by
  unfold readField at read
  split at read
  · obtain ⟨found, isRead⟩ := exists_of_mapRead read
    exact readRef_shorter isRead
  · obtain ⟨found, isRead⟩ := exists_of_mapRead read
    exact readRef_shorter isRead
  · obtain ⟨found, isRead⟩ := exists_of_mapRead read
    exact readBase_shorter isRead

/-- Reads parameter types up to and including the closing `)`. -/
def readParameters (text : List Char) : Except Stuck (List FieldType × List Char) :=
  match text with
  | ')' :: rest => .ok ([], rest)
  | [] => .error (unexpected "')'" [])
  | c :: more =>
    match found : readField (c :: more) with
    | .error stuck => .error stuck
    | .ok (type, after) =>
      have : after.length < (c :: more).length := readField_shorter found
      mapRead (type :: ·) (readParameters after)
termination_by text.length
decreasing_by
  simp only [List.length_cons] at this ⊢
  omega

/-- Reads a method descriptor: parameters in parentheses, then a return type or `V`. -/
def readMethod : Reader MethodDescriptor
  | '(' :: rest => do
    let (parameters, afterParameters) ← readParameters rest
    match afterParameters with
    | 'V' :: after => pure (⟨parameters, none⟩, after)
    | other => do
      let (returnType, after) ← readField other
      pure (⟨parameters, some returnType⟩, after)
  | other => .error (unexpected "'('" other)

/-- Runs a reader over a whole text: leftover characters are an error. -/
def parseWith {α : Type} (reader : Reader α) (text : String) : Except DescriptorError α :=
  let chars := text.toList
  let position (rest : List Char) : Nat := utf8Length chars - utf8Length rest
  match reader chars with
  | .error stuck => .error ⟨position stuck.rest, stuck.message⟩
  | .ok (value, []) => .ok value
  | .ok (_, c :: rest) => .error ⟨position (c :: rest), s!"trailing '{c}'"⟩

end Descriptor

namespace BaseType
def parse (text : String) : Except DescriptorError BaseType := Descriptor.parseWith Descriptor.readBase text
end BaseType

namespace BinaryName
/-- Reads a class descriptor `Lname;`. -/
def parseDescriptor (text : String) : Except DescriptorError BinaryName :=
  Descriptor.parseWith Descriptor.readClassName text
end BinaryName

namespace RefType
def parse (text : String) : Except DescriptorError RefType := Descriptor.parseWith Descriptor.readRef text
end RefType

namespace FieldType
def parse (text : String) : Except DescriptorError FieldType := Descriptor.parseWith Descriptor.readField text
end FieldType

namespace MethodDescriptor
def parse (text : String) : Except DescriptorError MethodDescriptor :=
  Descriptor.parseWith Descriptor.readMethod text
end MethodDescriptor

end ClassKit
