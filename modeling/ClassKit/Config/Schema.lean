import ClassKit.Config.Reader

/-!
# Reading typed values

Each kind of value the configuration holds has a reader that checks the next value is of that
kind: text, booleans, natural numbers, optional values, sequences, maps from text, and records
with named fields. A value of another kind is reported as `invalid type: <what was found>,
expected <what was wanted>`; the value found is consumed first when it is a scalar, so the
report is placed after it.

A record is read from an object or, field by field in order, from an array. In an object every
key must name a field, no field may appear twice, and a field without a default must appear.
-/

namespace ClassKit

/-- What was found where another kind of value was expected. -/
inductive Unexpected where
  | flag (value : Bool)
  | unsigned (value : Nat)
  | signed (value : Int)
  | float (value : Binary64)
  | text (value : String)
  | null
  | sequence
  | map

/-- A character as written in a quoted debugging text: quotes, backslashes and the common
control characters escaped, other invisible characters as `\u{hex}`. -/
def debugChar (c : Char) : String :=
  match c with
  | '\t' => "\\t"
  | '\r' => "\\r"
  | '\n' => "\\n"
  | '\\' => "\\\\"
  | '"' => "\\\""
  | '\x00' => "\\0"
  | _ =>
    let code := c.toNat
    if code < 0x20 || (0x7F ≤ code && code ≤ 0x9F) || code == 0xAD ||
        (0x200B ≤ code && code ≤ 0x200F) || code == 0x2028 || code == 0x2029 || code == 0xFEFF then
      "\\u" ++ "\x7b" ++ String.ofList (Nat.toDigits 16 code) ++ "\x7d"
    else c.toString

/-- A text in double quotes with `debugChar` escapes. -/
def debugQuoted (text : String) : String :=
  "\"" ++ String.join (text.toList.map debugChar) ++ "\""

namespace Unexpected

def describe : Unexpected → String
  | flag value => s!"boolean `{value}`"
  | unsigned value => s!"integer `{value}`"
  | signed value => s!"integer `{value}`"
  | float value => s!"floating point `{value.text}`"
  | text value => s!"string {debugQuoted value}"
  | null => "null"
  | sequence => "sequence"
  | map => "map"

/-- What a number read is, as something unexpected. -/
def ofNumber : JsonNumber → Unexpected
  | .unsigned value => unsigned value
  | .signed value => signed value
  | .float value => float value

end Unexpected

namespace JsonM

/-- The problem of a value of the wrong kind. -/
def invalidType {α : Type} (found : Unexpected) (expected : String) : JsonM α :=
  dataError s!"invalid type: {found.describe}, expected {expected}"

/-- The problem of a value of the right kind that is out of range. -/
def invalidValue {α : Type} (found : Unexpected) (expected : String) : JsonM α :=
  dataError s!"invalid value: {found.describe}, expected {expected}"

/-- Reports the next value as being of the wrong kind, consuming it when it is a scalar, and
places the report where reading stopped. -/
def wrongKind {α : Type} (expected : String) : JsonM α := located do
  match ← peek with
  | some 110 =>
    advance
    expectWord [117, 108, 108]
    invalidType .null expected
  | some 116 =>
    advance
    expectWord [114, 117, 101]
    invalidType (.flag true) expected
  | some 102 =>
    advance
    expectWord [97, 108, 115, 101]
    invalidType (.flag false) expected
  | some 45 =>
    advance
    invalidType (.ofNumber (← number false)) expected
  | some byte =>
    if 48 ≤ byte && byte ≤ 57 then invalidType (.ofNumber (← number true)) expected
    else if byte == 34 then
      advance
      invalidType (.text (← string)) expected
    else if byte == 91 then invalidType .sequence expected
    else if byte == 123 then invalidType .map expected
    else failAhead .expectedSomeValue
  | none => failAhead .expectedSomeValue

/-- The next byte after white space, which must exist. -/
def valueStart : JsonM UInt8 := do
  match ← skipSpace with
  | some byte => pure byte
  | none => failAhead .eofWhileParsingValue

/-- A text value. -/
def readString : JsonM String := located do
  if (← valueStart) == 34 then
    advance
    string
  else wrongKind "a string"

/-- A boolean value. -/
def readBool : JsonM Bool := located do
  match ← valueStart with
  | 116 =>
    advance
    expectWord [114, 117, 101]
    pure true
  | 102 =>
    advance
    expectWord [97, 108, 115, 101]
    pure false
  | _ => wrongKind "a boolean"

/-- A natural number that fits in 64 bits. -/
def readIndex : JsonM Nat := located do
  let byte ← valueStart
  let found ← if byte == 45 then do
      advance
      some <$> number false
    else if 48 ≤ byte && byte ≤ 57 then some <$> number true
    else pure none
  match found with
  | some (.unsigned value) => pure value
  | some (.signed value) => invalidValue (.signed value) "usize"
  | some (.float value) => invalidType (.float value) "usize"
  | none => wrongKind "usize"

/-- An optional value: `null` or a value read by `inner`. -/
def readOption {α : Type} (inner : JsonM α) : JsonM (Option α) := do
  match ← skipSpace with
  | some 110 =>
    advance
    expectWord [117, 108, 108]
    pure none
  | _ => some <$> inner

/-- Ends an object: a closing brace is consumed; anything else is reported. -/
def endObject : JsonM Unit := do
  match ← skipSpace with
  | some 125 => advance
  | some 44 => failAhead .trailingComma
  | some _ => failAhead .trailingCharacters
  | none => failAhead .eofWhileParsingObject

/-- Ends an array: a closing bracket is consumed; anything else is reported. -/
def endArray : JsonM Unit := do
  match ← skipSpace with
  | some 93 => advance
  | some 44 =>
    advance
    match ← skipSpace with
    | some 93 => failAhead .trailingComma
    | _ => failAhead .trailingCharacters
  | some _ => failAhead .trailingCharacters
  | none => failAhead .eofWhileParsingList

/-- Reads a container's contents with `body`, then its end with `close` even when the contents
failed (the end then only moves the reader), and places an unplaced failure where that left
the reader. -/
def enclosed {α : Type} (body : JsonM α) (close : JsonM Unit) : JsonM α := located do
  let contents ← nested do
    advance
    attempt body
  let closing ← attempt close
  match contents, closing with
  | .ok value, .ok () => pure value
  | .error err, _ => throw err
  | .ok _, .error err => throw err

/-- Moves to the next element of an array; false at its end. A comma right at the start is
left for the element to report. -/
def nextElement (first : Bool) : JsonM Bool := do
  match ← skipSpace with
  | some 93 => pure false
  | some 44 =>
    if first then pure true
    else
      advance
      match ← skipSpace with
      | some 93 => failAhead .trailingComma
      | some _ => pure true
      | none => failAhead .eofWhileParsingValue
  | some _ => if first then pure true else failAhead .expectedListCommaOrEnd
  | none => failAhead .eofWhileParsingList

/-- Reads a key starting at the given byte. -/
def keyAt : Option UInt8 → JsonM (Option String)
  | some 34 => do
    advance
    some <$> string
  | some 125 => failAhead .trailingComma
  | some _ => failAhead .keyMustBeAString
  | none => failAhead .eofWhileParsingValue

/-- Moves to the next key of an object and reads it; none at its end. -/
def nextKey (first : Bool) : JsonM (Option String) := do
  match ← skipSpace with
  | some 125 => pure none
  | some 44 =>
    if first then keyAt (some 44)
    else
      advance
      keyAt (← skipSpace)
  | some byte => if first then keyAt (some byte) else failAhead .expectedObjectCommaOrEnd
  | none => failAhead .eofWhileParsingObject

/-- The colon between a key and its value. -/
def colon : JsonM Unit := do
  match ← skipSpace with
  | some 58 => advance
  | some _ => failAhead .expectedColon
  | none => failAhead .eofWhileParsingObject

/-- The elements of an array, each read by `element`; `fuel` bounds their number by the length
of the text. -/
def elements {α : Type} (element : JsonM α) : Nat → Bool → Array α → JsonM (List α)
  | 0, _, collected => pure collected.toList
  | fuel + 1, first, collected => do
    if ← nextElement first then
      let value ← element
      elements element fuel false (collected.push value)
    else pure collected.toList

/-- A sequence of values read by `element`. -/
def readSeq {α : Type} (element : JsonM α) : JsonM (List α) := located do
  if (← valueStart) == 91 then
    enclosed (do elements element ((← get).bytes.size + 1) true #[]) endArray
  else wrongKind "a sequence"

/-- Inserts an entry into a list sorted by key, replacing an entry with the same key. -/
def insertByKey {β : Type} (key : String) (value : β) : List (String × β) → List (String × β)
  | [] => [(key, value)]
  | (other, existing) :: rest =>
    if key < other then (key, value) :: (other, existing) :: rest
    else if key == other then (key, value) :: rest
    else (other, existing) :: insertByKey key value rest

/-- The entries of an object, each value read by `value`, kept sorted by key; a later entry
replaces an earlier one with the same key. -/
def entries {β : Type} (value : JsonM β) : Nat → Bool → List (String × β) → JsonM (List (String × β))
  | 0, _, collected => pure collected
  | fuel + 1, first, collected => do
    match ← nextKey first with
    | none => pure collected
    | some key =>
      colon
      let item ← value
      entries value fuel false (insertByKey key item collected)

/-- An object read as a map from its keys. -/
def readMap {β : Type} (value : JsonM β) : JsonM (List (String × β)) := located do
  if (← valueStart) == 123 then
    enclosed (do entries value ((← get).bytes.size + 1) true []) endObject
  else wrongKind "a map"

/-! ## Records -/

/-- How to read a record of type `α`: its name, its field names in order, a draft record
`σ` to fill, how to read the value of each field into it, and how to finish it, given the
problem to report for a missing field. -/
structure RecordShape (σ α : Type) where
  name : String
  fields : List String
  start : σ
  readField : Nat → σ → JsonM σ
  finish : (Nat → JsonError) → σ → Except JsonError α

/-- `` `a` ``, `` `a` or `b` `` or `` one of `a`, `b`, `c` ``. -/
def oneOf (names : List String) : String :=
  match names with
  | [single] => s!"`{single}`"
  | [first, second] => s!"`{first}` or `{second}`"
  | _ => "one of " ++ ", ".intercalate (names.map fun name => s!"`{name}`")

/-- The fields of a record given as an object; a key that names no field, or a field given
twice, is a problem. -/
def recordFields {σ α : Type} (shape : RecordShape σ α) :
    Nat → Bool → List Nat → σ → JsonM (List Nat × σ)
  | 0, _, seen, draft => pure (seen, draft)
  | fuel + 1, first, seen, draft => do
    match ← nextKey first with
    | none => pure (seen, draft)
    | some key =>
      match shape.fields.findIdx? (· == key) with
      | none =>
        dataError s!"unknown field `{key}`, expected {oneOf shape.fields}"
      | some field =>
        if seen.contains field then dataError s!"duplicate field `{key}`"
        else
          colon
          let draft ← shape.readField field draft
          recordFields shape fuel false (field :: seen) draft

/-- The fields of a record given as an array, in order, as far as the array goes. -/
def recordElements {σ α : Type} (shape : RecordShape σ α) : List Nat → Bool → σ → JsonM σ
  | [], _, draft => pure draft
  | field :: rest, first, draft => do
    if ← nextElement first then
      recordElements shape rest false (← shape.readField field draft)
    else pure draft

/-- A record: from an object by field names, or from an array by field order. -/
def readRecord {σ α : Type} (shape : RecordShape σ α) : JsonM α := located do
  match ← valueStart with
  | 123 =>
    enclosed (do
      let (_, draft) ← recordFields shape ((← get).bytes.size + 1) true [] shape.start
      MonadExcept.ofExcept (shape.finish (fun field =>
        let fieldName := (shape.fields[field]?).getD ""
        { message := s!"missing field `{fieldName}`" }) draft)) endObject
  | 91 =>
    enclosed (do
      let draft ← recordElements shape (List.range shape.fields.length) true shape.start
      let expected := s!"struct {shape.name} with {shape.fields.length} elements"
      MonadExcept.ofExcept (shape.finish (fun field =>
        { message := s!"invalid length {field}, expected {expected}" }) draft)) endArray
  | _ => wrongKind s!"struct {shape.name}"

/-! ## Values of any kind -/

/-- The kind of a value read without a schema, as far as a choice between alternatives needs
it. -/
inductive Scalar where
  | unsigned (value : Nat)
  | signed (value : Int)
  | flag (value : Bool)
  | other

/-- Reads a value of any kind; `depth` bounds the nesting of arrays and objects. -/
def readAny : Nat → JsonM Scalar
  | 0 => failAhead .recursionLimitExceeded
  | depth + 1 => located do
    match ← valueStart with
    | 110 =>
      advance
      expectWord [117, 108, 108]
      pure .other
    | 116 =>
      advance
      expectWord [114, 117, 101]
      pure (.flag true)
    | 102 =>
      advance
      expectWord [97, 108, 115, 101]
      pure (.flag false)
    | 45 =>
      advance
      match ← number false with
      | .unsigned value => pure (.unsigned value)
      | .signed value => pure (.signed value)
      | .float _ => pure .other
    | 34 =>
      advance
      discard string
      pure .other
    | 91 =>
      enclosed (do
        discard (elements (readAny depth) ((← get).bytes.size + 1) true #[])
        pure .other) endArray
    | 123 =>
      enclosed (do
        discard (entries (readAny depth) ((← get).bytes.size + 1) true [])
        pure .other) endObject
    | byte =>
      if 48 ≤ byte && byte ≤ 57 then
        match ← number true with
        | .unsigned value => pure (.unsigned value)
        | .signed value => pure (.signed value)
        | .float _ => pure .other
      else failAhead .expectedSomeValue

/-- A value of any kind, within the nesting still allowed. -/
def readAnyValue : JsonM Scalar := do
  readAny (← get).depth

end JsonM

end ClassKit
