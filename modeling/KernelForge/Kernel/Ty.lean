/-!
# Types of values

The types that nodes, fields and parameters of an analysed kernel carry.
-/

namespace KernelForge

/-- The qualified name of a class. Segments are separated by `.`, `/` or `$`. -/
structure ClassName where
  text : String
deriving DecidableEq

namespace ClassName

/-- A character that separates two segments. -/
def isSeparator (c : Char) : Bool :=
  c == '.' || c == '/' || c == '$'

/-- The last segment. -/
def simpleName (name : ClassName) : String :=
  String.ofList (name.text.toList.reverse.takeWhile (!isSeparator ·)).reverse

/-- The name as diagnostics show it. -/
def describe (name : ClassName) : String :=
  "ClassName(" ++ name.text ++ ")"

end ClassName

/-- The type of a value. -/
inductive Ty
  | void
  | bool
  | byte
  | short
  | char
  | int
  | long
  | float
  | double
  | object (cls : ClassName)
  | array (element : Ty)
deriving DecidableEq

namespace Ty

/-- Whether values of the type exist at all. -/
def isVoid : Ty → Bool
  | void => true
  | _ => false

def isArray : Ty → Bool
  | array _ => true
  | _ => false

/-- Integral types, where a division can fail. -/
def isIntegral : Ty → Bool
  | byte | short | char | int | long => true
  | _ => false

/-- The element type of an array. -/
def element? : Ty → Option Ty
  | array e => some e
  | _ => none

/-- The number of array dimensions. -/
def dimensions : Ty → Nat
  | array e => e.dimensions + 1
  | _ => 0

/-- Whether the type is `double` or an array of it. -/
def mentionsDouble : Ty → Bool
  | double => true
  | array e => e.mentionsDouble
  | _ => false

/-- The type as diagnostics show it. -/
def describe : Ty → String
  | void => "Void"
  | bool => "Bool"
  | byte => "Byte"
  | short => "Short"
  | char => "Char"
  | int => "Int"
  | long => "Long"
  | float => "Float"
  | double => "Double"
  | object cls => "Object(" ++ cls.describe ++ ")"
  | array e => "Array(" ++ e.describe ++ ")"

end Ty

end KernelForge
