import KernelForge.Kernel.Metadata
import KernelForge.Text.Identifier

/-!
# Type names of the kernel language

A class with declared metadata is spelled as declared, any other by its simple name. Arrays are
pointers into the global address space.
-/

namespace KernelForge.Metadata

/-- A type without address space. -/
def typeName (md : Metadata) : Ty → String
  | .void => "void"
  | .bool => "bool"
  | .byte => "char"
  | .short => "short"
  | .char => "ushort"
  | .int => "int"
  | .long => "long"
  | .float => "float"
  | .double => "double"
  | .object cls =>
    match md.type? cls with
    | some info => info.name
    | none => Identifier.ofName cls.simpleName
  | .array element => md.typeName element ++ "*"

/-- A type as it stands in a declaration. -/
def declaredType (md : Metadata) (ty : Ty) : String :=
  if ty.isArray then "__global " ++ md.typeName ty else md.typeName ty

/-- The declaration of `name` with a type. -/
def declare (md : Metadata) (ty : Ty) (name : String) : String :=
  md.declaredType ty ++ " " ++ name

/-- Scalar lanes for each value of a type: what its metadata declares for a class, else one. -/
def lanes (md : Metadata) : Ty → Nat
  | .object cls => ((md.type? cls).bind HelperType.lanes).getD 1
  | _ => 1

end KernelForge.Metadata
