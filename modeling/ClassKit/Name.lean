/-!
# Names of classes and members

A member (field or method) is named by an *unqualified name*: a non-empty text without any of the
four characters `.`, `;`, `[` and `/`. A class is named by a *binary name*: non-empty unqualified
segments joined by `/`, such as `java/lang/Object`.

Validation reports the first offending character in the text, so that the message points at the
leftmost problem.
-/

namespace ClassKit

/-- Characters that may not appear in an unqualified name. -/
def isNameDelimiter (c : Char) : Bool :=
  c == '.' || c == ';' || c == '[' || c == '/'

/-- Why a text is not an unqualified name, if it is not one. -/
def unqualifiedNameProblem (text : String) : Option String :=
  if text.isEmpty then
    some "Unqualified name is empty"
  else
    match text.toList.find? isNameDelimiter with
    | some c => some s!"Unqualified name '{text}' contains '{c}'"
    | none => none

/-- Why a text is not a binary name, if it is not one: the first bad segment decides. -/
def binaryNameProblem (text : String) : Option String :=
  if text.isEmpty then
    some "Binary name is empty"
  else
    match ((text.toList.splitOn '/').map String.ofList).findSome? unqualifiedNameProblem with
    | some problem => some s!"Binary name '{text}': {problem}"
    | none => none

/-- Name of a field or a method. -/
structure UnqualifiedName where
  text : String
  deriving DecidableEq, Hashable, Inhabited, Repr

/-- Name of a class or interface in internal form, with `/` between package segments. -/
structure BinaryName where
  text : String
  deriving DecidableEq, Hashable, Inhabited, Repr

namespace UnqualifiedName

/-- Checks a text and wraps it, or explains what is wrong with it. -/
def ofString (text : String) : Except String UnqualifiedName :=
  match unqualifiedNameProblem text with
  | some problem => .error problem
  | none => .ok ⟨text⟩

instance : ToString UnqualifiedName := ⟨UnqualifiedName.text⟩

/-- Instance initializers. -/
def init : UnqualifiedName := ⟨"<init>"⟩
/-- Static initializers. -/
def clinit : UnqualifiedName := ⟨"<clinit>"⟩
def isMetaDown : UnqualifiedName := ⟨"isMetaDown"⟩
def isRightMouseButton : UnqualifiedName := ⟨"isRightMouseButton"⟩
def mousePressed : UnqualifiedName := ⟨"mousePressed"⟩

end UnqualifiedName

namespace BinaryName

/-- Checks a text and wraps it, or explains what is wrong with it. -/
def ofString (text : String) : Except String BinaryName :=
  match binaryNameProblem text with
  | some problem => .error problem
  | none => .ok ⟨text⟩

instance : ToString BinaryName := ⟨BinaryName.text⟩

/-- Binary names are ordered by their text, character by character. -/
instance : Ord BinaryName := ⟨fun a b => compare a.text b.text⟩

instance : LT BinaryName := ⟨fun a b => a.text < b.text⟩

instance (a b : BinaryName) : Decidable (a < b) :=
  inferInstanceAs (Decidable (a.text < b.text))

def bigInteger : BinaryName := ⟨"java/math/BigInteger"⟩
def mouseEvent : BinaryName := ⟨"java/awt/event/MouseEvent"⟩
def object : BinaryName := ⟨"java/lang/Object"⟩
def string : BinaryName := ⟨"java/lang/String"⟩
def swingUtilities : BinaryName := ⟨"javax/swing/SwingUtilities"⟩
def throwable : BinaryName := ⟨"java/lang/Throwable"⟩

end BinaryName

end ClassKit
