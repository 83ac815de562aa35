import ClassKit.Text.Decimal
import ClassKit.Text.Quoted

/-!
# Constant pool entries

A class file keeps its names, descriptors and literals in a *constant pool*, an indexed table that
the rest of the file refers to. Entries refer to each other by index: a class entry names the
index of a text entry, a field reference names a class entry and a name-and-type entry.

Indices start at 1, and an entry holding a `long` or a `double` takes two slots, the second of
which is unusable.
-/

namespace ClassKit

/-- An entry of the constant pool, with references to other entries by index. -/
inductive Constant where
  | utf8 (text : String)
  | integer (value : Int32)
  | float (bits : UInt32)
  | long (value : Int64)
  | double (bits : UInt64)
  | classRef (name : Nat)
  | string (text : Nat)
  | fieldRef (owner : Nat) (member : Nat)
  | methodRef (owner : Nat) (member : Nat) (isInterface : Bool)
  | nameAndType (name : Nat) (descriptor : Nat)
  deriving DecidableEq, Hashable, Inhabited

namespace Constant

/-- Slots taken in the pool: two for `long` and `double`, one otherwise. -/
def width : Constant → Nat
  | long _ | double _ => 2
  | _ => 1

/-- The tag byte that starts the entry in a class file. -/
def tag : Constant → Nat
  | utf8 _ => 1
  | integer _ => 3
  | float _ => 4
  | long _ => 5
  | double _ => 6
  | classRef _ => 7
  | string _ => 8
  | fieldRef _ _ => 9
  | methodRef _ _ isInterface => if isInterface then 11 else 10
  | nameAndType _ _ => 12

/-- The entry as a structured term, as it appears in error messages:
`Utf8("Code")`, `Long(-1)`, `Class(Utf8ConstantIndex(ConstantIndex(3)))`, ... -/
def describe : Constant → String
  | utf8 text => s!"Utf8({Quoted.quote text})"
  | integer value => s!"Integer({value.toInt})"
  | float bits => s!"Float({Decimal.generalText Decimal.binary32 bits.toNat})"
  | long value => s!"Long({value.toInt})"
  | double bits => s!"Double({Decimal.generalText Decimal.binary64 bits.toNat})"
  | classRef name => "Class(" ++ typed "Utf8" name ++ ")"
  | string text => "String(" ++ typed "Utf8" text ++ ")"
  | fieldRef owner member =>
    "FieldRef(" ++ typed "Class" owner ++ ", " ++ typed "NameAndType" member ++ ")"
  | methodRef owner member isInterface =>
    "MethodRef \x7b class: " ++ typed "Class" owner ++ ", name_and_type: " ++
      typed "NameAndType" member ++ s!", is_interface: {isInterface} \x7d"
  | nameAndType name descriptor =>
    "NameAndType \x7b name: " ++ typed "Utf8" name ++ ", descriptor: " ++
      typed "Utf8" descriptor ++ " \x7d"
where
  /-- An index as a term of its kind: `Utf8ConstantIndex(ConstantIndex(3))`. -/
  typed (kind : String) (index : Nat) : String :=
    s!"{kind}ConstantIndex(ConstantIndex({index}))"

end Constant

end ClassKit
