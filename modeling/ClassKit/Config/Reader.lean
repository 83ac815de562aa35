import ClassKit.Text.Binary64

/-!
# Reading configuration text

The configuration file is JSON, read in one pass from the first byte to the last: each value is
read where the schema expects it, so the first problem met in reading order is the one reported.

A problem found by the reader itself names where it happened: the line (from 1) and the column,
counted in bytes from the start of the line. Most problems are placed at the reader's position,
after whatever it consumed; problems found by looking at a byte without consuming it are placed
one byte further. Problems with the data rather than the syntax (a missing field, a value of the
wrong type) are raised without a place and get the reader's position when the value around them
is finished.

Nesting is limited: a value may be nested in at most 127 arrays or objects.
-/

namespace ClassKit

/-- A syntax problem of configuration text. -/
inductive SyntaxProblem where
  | eofWhileParsingList
  | eofWhileParsingObject
  | eofWhileParsingString
  | eofWhileParsingValue
  | expectedColon
  | expectedListCommaOrEnd
  | expectedObjectCommaOrEnd
  | expectedSomeIdent
  | expectedSomeValue
  | invalidEscape
  | invalidNumber
  | numberOutOfRange
  | controlCharacterWhileParsingString
  | keyMustBeAString
  | loneLeadingSurrogateInHexEscape
  | trailingComma
  | trailingCharacters
  | unexpectedEndOfHexEscape
  | recursionLimitExceeded
  deriving DecidableEq, Repr

namespace SyntaxProblem

def message : SyntaxProblem → String
  | eofWhileParsingList => "EOF while parsing a list"
  | eofWhileParsingObject => "EOF while parsing an object"
  | eofWhileParsingString => "EOF while parsing a string"
  | eofWhileParsingValue => "EOF while parsing a value"
  | expectedColon => "expected `:`"
  | expectedListCommaOrEnd => "expected `,` or `]`"
  | expectedObjectCommaOrEnd => "expected `,` or \x7d"
  | expectedSomeIdent => "expected ident"
  | expectedSomeValue => "expected value"
  | invalidEscape => "invalid escape"
  | invalidNumber => "invalid number"
  | numberOutOfRange => "number out of range"
  | controlCharacterWhileParsingString =>
    "control character (\\u0000-\\u001F) found while parsing a string"
  | keyMustBeAString => "key must be a string"
  | loneLeadingSurrogateInHexEscape => "lone leading surrogate in hex escape"
  | trailingComma => "trailing comma"
  | trailingCharacters => "trailing characters"
  | unexpectedEndOfHexEscape => "unexpected end of hex escape"
  | recursionLimitExceeded => "recursion limit exceeded"

end SyntaxProblem

/-- A problem reading configuration text, with its line and column once known. -/
structure JsonError where
  message : String
  location : Option (Nat × Nat) := none
  deriving DecidableEq, Repr

namespace JsonError

/-- The message, followed by the place when known. -/
def text (err : JsonError) : String :=
  match err.location with
  | some (line, column) => s!"{err.message} at line {line} column {column}"
  | none => err.message

end JsonError

/-- The text being read, the position of the next byte, and how much deeper values may nest. -/
structure JsonCursor where
  bytes : Array UInt8
  index : Nat := 0
  depth : Nat := 128

/-- A computation reading configuration text. A failure keeps the position reached, as reading
goes on from there to finish the enclosing value. -/
abbrev JsonM := ExceptT JsonError (StateM JsonCursor)

/-- The line and column of a byte position: lines count from 1, columns are bytes since the
last line feed before the position. -/
def lineAndColumn (bytes : Array UInt8) (position : Nat) : Nat × Nat :=
  let before := (bytes.toList.take position)
  let lineFeeds := before.count 10
  let column := (before.reverse.takeWhile (· != 10)).length
  (lineFeeds + 1, column)

namespace JsonM

/-- The next byte, without consuming it. -/
def peek : JsonM (Option UInt8) := do
  let cursor ← get
  pure cursor.bytes[cursor.index]?

/-- Consumes one byte. -/
def advance : JsonM Unit :=
  modify fun cursor => { cursor with index := cursor.index + 1 }

/-- Consumes and returns the next byte. -/
def next : JsonM (Option UInt8) := do
  let byte ← peek
  if byte.isSome then advance
  pure byte

/-- The place of the reader's position. -/
def here : JsonM (Nat × Nat) := do
  let cursor ← get
  pure (lineAndColumn cursor.bytes cursor.index)

/-- A syntax problem at the reader's position. -/
def fail {α : Type} (problem : SyntaxProblem) : JsonM α := do
  throw { message := problem.message, location := some (← here) }

/-- A syntax problem one byte past the reader's position (at most at the end). -/
def failAhead {α : Type} (problem : SyntaxProblem) : JsonM α := do
  let cursor ← get
  let position := min cursor.bytes.size (cursor.index + 1)
  throw { message := problem.message, location := some (lineAndColumn cursor.bytes position) }

/-- A problem with the data, placed later. -/
def dataError {α : Type} (message : String) : JsonM α := throw { message }

/-- Gives an unplaced problem the reader's position. -/
def placed (err : JsonError) : JsonM JsonError := do
  match err.location with
  | some _ => pure err
  | none => pure { err with location := some (← here) }

/-- Runs a step, placing an unplaced failure at the position where the step stopped. -/
def located {α : Type} (action : JsonM α) : JsonM α :=
  tryCatch action fun err => do throw (← placed err)

/-- Runs a step and returns its outcome, failure included. -/
def attempt {α : Type} (action : JsonM α) : JsonM (Except JsonError α) :=
  tryCatch (Except.ok <$> action) fun err => pure (.error err)

/-- Enters one more level of nesting for `body`, failing past the limit. -/
def nested {α : Type} (body : JsonM α) : JsonM α := do
  let cursor ← get
  if cursor.depth ≤ 1 then failAhead .recursionLimitExceeded
  else
    set { cursor with depth := cursor.depth - 1 }
    let outcome ← attempt body
    modify fun cursor => { cursor with depth := cursor.depth + 1 }
    MonadExcept.ofExcept outcome

/-- The first position at or after `index` that is not a space, tab, line feed or carriage
return. -/
def skipSpaceFrom (bytes : Array UInt8) (index : Nat) : Nat :=
  if h : index < bytes.size then
    let byte := bytes[index]
    if byte == 32 || byte == 9 || byte == 10 || byte == 13 then skipSpaceFrom bytes (index + 1)
    else index
  else index
termination_by bytes.size - index

/-- Skips white space and returns the next byte, without consuming it. -/
def skipSpace : JsonM (Option UInt8) := do
  modify fun cursor => { cursor with index := skipSpaceFrom cursor.bytes cursor.index }
  peek

/-- Expects the rest of a literal word such as `ull` of `null`. -/
def expectWord (rest : List UInt8) : JsonM Unit :=
  rest.forM fun expected => do
    match ← next with
    | none => fail .eofWhileParsingValue
    | some byte => if byte != expected then fail .expectedSomeIdent

end JsonM

/-! ## Strings -/

/-- The UTF-8 bytes of a code point. -/
def utf8Bytes (code : Nat) : List UInt8 :=
  if code < 0x80 then [code.toUInt8]
  else if code < 0x800 then [(0xC0 + code / 64).toUInt8, (0x80 + code % 64).toUInt8]
  else if code < 0x10000 then
    [(0xE0 + code / 4096).toUInt8, (0x80 + code / 64 % 64).toUInt8, (0x80 + code % 64).toUInt8]
  else
    [(0xF0 + code / 262144).toUInt8, (0x80 + code / 4096 % 64).toUInt8,
     (0x80 + code / 64 % 64).toUInt8, (0x80 + code % 64).toUInt8]

/-- The value of a hexadecimal digit. -/
def hexValue (byte : UInt8) : Option Nat :=
  if 48 ≤ byte && byte ≤ 57 then some (byte.toNat - 48)
  else if 65 ≤ byte && byte ≤ 70 then some (byte.toNat - 55)
  else if 97 ≤ byte && byte ≤ 102 then some (byte.toNat - 87)
  else none

namespace JsonM

/-- Four hexadecimal digits of a `\u` escape. All four are consumed before they are checked;
fewer than four bytes left is the end of the text. -/
def hexEscape : JsonM Nat := do
  let cursor ← get
  let digits := (cursor.bytes.toList.drop cursor.index).take 4
  if digits.length < 4 then
    set { cursor with index := cursor.bytes.size }
    fail .eofWhileParsingString
  else
    set { cursor with index := cursor.index + 4 }
    match digits.mapM hexValue with
    | some values => pure (values.foldl (fun acc v => acc * 16 + v) 0)
    | none => fail .invalidEscape

/-- The byte after a backslash that must come, or the end of the text. -/
def escapeByte : JsonM UInt8 := do
  match ← next with
  | some byte => pure byte
  | none => fail .eofWhileParsingString

/-- Looks at the next byte inside a string. -/
def peekInString : JsonM UInt8 := do
  match ← peek with
  | some byte => pure byte
  | none => fail .eofWhileParsingString

/-- A `\u` escape, after the `u`: a code point outside the surrogates, or a leading surrogate
followed by an escaped trailing one. -/
def unicodeEscape : JsonM (List UInt8) := do
  let first ← hexEscape
  if 0xDC00 ≤ first && first ≤ 0xDFFF then fail .loneLeadingSurrogateInHexEscape
  else if first < 0xD800 || first > 0xDBFF then pure (utf8Bytes first)
  else
    if (← peekInString) == 92 then advance
    else
      advance
      fail .unexpectedEndOfHexEscape
    if (← peekInString) == 117 then advance
    else
      advance
      fail .unexpectedEndOfHexEscape
    let second ← hexEscape
    if second < 0xDC00 || second > 0xDFFF then fail .loneLeadingSurrogateInHexEscape
    else pure (utf8Bytes (((first - 0xD800) * 1024 + (second - 0xDC00)) + 0x10000))

/-- An escape, after the backslash. -/
def escape : JsonM (List UInt8) := do
  match ← escapeByte with
  | 34 => pure [34]
  | 92 => pure [92]
  | 47 => pure [47]
  | 98 => pure [8]
  | 102 => pure [12]
  | 110 => pure [10]
  | 114 => pure [13]
  | 116 => pure [9]
  | 117 => unicodeEscape
  | _ => fail .invalidEscape

/-- The body of a string after its opening quote, up to and including the closing quote;
`fuel` bounds the number of pieces by the length of the text. -/
def stringBody : Nat → Array UInt8 → JsonM (Array UInt8)
  | 0, _ => fail .eofWhileParsingString
  | fuel + 1, collected => do
    match ← peek with
    | none => fail .eofWhileParsingString
    | some 34 =>
      advance
      pure collected
    | some 92 =>
      advance
      let decoded ← escape
      stringBody fuel (collected ++ decoded.toArray)
    | some byte =>
      advance
      if byte < 32 then fail .controlCharacterWhileParsingString
      else stringBody fuel (collected.push byte)

/-- A string, after its opening quote. -/
def string : JsonM String := do
  let bytes ← stringBody ((← get).bytes.size + 1) #[]
  pure ((String.fromUTF8? (ByteArray.mk bytes)).getD "")

end JsonM

/-! ## Numbers -/

/-- A number as read: a natural number below `2^64`, a negative integer not below `-2^63`, or a
float for anything else. -/
inductive JsonNumber where
  | unsigned (value : Nat)
  | signed (value : Int)
  | float (value : Binary64)
  deriving DecidableEq, Repr

/-- The largest unsigned 64-bit value. -/
def maxUnsigned : Nat := Nat.pow 2 64 - 1

namespace JsonM

/-- Consumes a run of decimal digits, returning how many there were. -/
def skipDigitsFrom (bytes : Array UInt8) (index : Nat) : Nat :=
  if h : index < bytes.size then
    let byte := bytes[index]
    if 48 ≤ byte && byte ≤ 57 then skipDigitsFrom bytes (index + 1) else index
  else index
termination_by bytes.size - index

/-- Skips digits at the reader's position. -/
def skipDigits : JsonM Unit :=
  modify fun cursor => { cursor with index := skipDigitsFrom cursor.bytes cursor.index }

/-- The next byte if it is a decimal digit, with its value. -/
def peekDigit : JsonM (Option Nat) := do
  match ← peek with
  | some byte => if 48 ≤ byte && byte ≤ 57 then pure (some (byte.toNat - 48)) else pure none
  | none => pure none

/-- `significand × 10^exponent` as a float, computed as a float times or divided by a float
power of ten; a power beyond `10^308` is taken in steps. Too large is out of range. -/
def floatOfParts (positive : Bool) (significand : Nat) (exponent : Int) : JsonM Binary64 := do
  let rec scale : Nat → Binary64 → Int → JsonM Binary64
    | 0, value, _ => pure value
    | fuel + 1, value, exponent =>
      if exponent.natAbs ≤ 308 then
        if 0 ≤ exponent then
          match value.mul (Binary64.powerOfTen exponent.toNat) with
          | some product => pure product
          | none => fail .numberOutOfRange
        else pure (value.div (Binary64.powerOfTen exponent.natAbs))
      else if value.isZero then pure value
      else if 0 ≤ exponent then fail .numberOutOfRange
      else scale fuel (value.div (Binary64.powerOfTen 308)) (exponent + 308)
  let value ← scale 16 (Binary64.ofNat significand) exponent
  pure (if positive then value else value.neg)

/-- The exponent part, after the `e`. An exponent too large for 32 bits gives zero, or is out of
range for a non-zero significand with a positive exponent. -/
def exponentPart (positive : Bool) (significand : Nat) (start : Int) : JsonM Binary64 := do
  advance
  let positiveExponent ← match ← peek with
    | some 43 => do advance; pure true
    | some 45 => do advance; pure false
    | _ => pure true
  match ← next with
  | none => fail .eofWhileParsingValue
  | some byte =>
    if !(48 ≤ byte && byte ≤ 57) then fail .invalidNumber
    else
      let rec digits : Nat → Nat → JsonM (Option Nat)
        | 0, value => pure (some value)
        | fuel + 1, value => do
          match ← peekDigit with
          | none => pure (some value)
          | some digit =>
            advance
            if value * 10 + digit > 2147483647 then pure none
            else digits fuel (value * 10 + digit)
      match ← digits ((← get).bytes.size + 1) (byte.toNat - 48) with
      | none =>
        if significand != 0 && positiveExponent then fail .numberOutOfRange
        else
          skipDigits
          pure (if positive then { mantissa := 0, exponent := 0 }
            else { negative := true, mantissa := 0, exponent := 0 })
      | some exponent =>
        let total := if positiveExponent then start + exponent else start - exponent
        let total := max (-2147483648) (min 2147483647 total)
        floatOfParts positive significand total

/-- The fraction part, after the `.`; digits past what 64 bits hold are dropped. -/
def fractionPart (positive : Bool) (significand : Nat) (start : Int) : JsonM Binary64 := do
  advance
  let rec digits : Nat → Nat → Int → Bool → JsonM (Nat × Int × Bool)
    | 0, significand, exponent, any => pure (significand, exponent, any)
    | fuel + 1, significand, exponent, any => do
      match ← peekDigit with
      | none => pure (significand, exponent, any)
      | some digit =>
        if significand * 10 + digit > maxUnsigned then
          skipDigits
          pure (significand, exponent, true)
        else
          advance
          digits fuel (significand * 10 + digit) (exponent - 1) true
  let (significand, exponent, any) ← digits ((← get).bytes.size + 1) significand start false
  if !any then
    match ← peek with
    | some _ => failAhead .invalidNumber
    | none => failAhead .eofWhileParsingValue
  else
    match ← peek with
    | some 101 | some 69 => exponentPart positive significand exponent
    | _ => floatOfParts positive significand exponent

/-- What follows the integer digits: a fraction, an exponent, or nothing. Minus zero and
negative integers below `-2^63` become floats. -/
def afterInteger (positive : Bool) (significand : Nat) : JsonM JsonNumber := do
  match ← peek with
  | some 46 => .float <$> fractionPart positive significand 0
  | some 101 | some 69 => .float <$> exponentPart positive significand 0
  | _ =>
    if positive then pure (.unsigned significand)
    else if significand == 0 || significand > Nat.pow 2 63 then
      pure (.float (Binary64.ofNat significand).neg)
    else pure (.signed (-(significand : Int)))

/-- Integer digits past what 64 bits hold: they only raise the power of ten. -/
def longInteger (positive : Bool) (significand : Nat) : JsonM Binary64 := do
  let rec count : Nat → Int → JsonM Int
    | 0, exponent => pure exponent
    | fuel + 1, exponent => do
      match ← peekDigit with
      | some _ =>
        advance
        count fuel (exponent + 1)
      | none => pure exponent
  let exponent ← count ((← get).bytes.size + 1) 0
  match ← peek with
  | some 46 => fractionPart positive significand exponent
  | some 101 | some 69 => exponentPart positive significand exponent
  | _ => floatOfParts positive significand exponent

/-- A number, after its sign. A leading zero may not be followed by another digit. -/
def number (positive : Bool) : JsonM JsonNumber := do
  match ← next with
  | none => fail .eofWhileParsingValue
  | some 48 =>
    match ← peekDigit with
    | some _ => failAhead .invalidNumber
    | none => afterInteger positive 0
  | some byte =>
    if !(49 ≤ byte && byte ≤ 57) then fail .invalidNumber
    else
      let rec digits : Nat → Nat → JsonM JsonNumber
        | 0, significand => afterInteger positive significand
        | fuel + 1, significand => do
          match ← peekDigit with
          | some digit =>
            if significand * 10 + digit > maxUnsigned then
              .float <$> longInteger positive significand
            else
              advance
              digits fuel (significand * 10 + digit)
          | none => afterInteger positive significand
      digits ((← get).bytes.size + 1) (byte.toNat - 48)

end JsonM

end ClassKit
