import KernelForge.Kernel.Graph
import KernelForge.Kernel.Body
import KernelForge.Kernel.Metadata

/-!
# Kernel classes

A kernel class has state fields and analysed methods. Its fields, in declaration order, become the
arguments of every generated function.
-/

namespace KernelForge

/-- A named value of a type: a field or a parameter. -/
structure Variable where
  name : String
  ty : Ty
deriving DecidableEq

/-- An analysed method. -/
structure Method where
  name : String
  params : List Variable := []
  returns : Ty := .void
  graph : Graph := {}
  body : List Stmt := []
  isConstructor : Bool := false

/-- A kernel class. -/
structure KernelClass where
  name : ClassName
  fields : List Variable := []
  methods : List Method := []
  metadata : Metadata := Metadata.builtins

/-- The name of the method that runs once for each work-item. -/
def entryName : String := "process_work_item"

namespace KernelClass

/-- The first method of a name, constructors included. -/
def method? (cls : KernelClass) (name : String) : Option Method :=
  cls.methods.find? (·.name == name)

/-- The method that runs once for each work-item. -/
def entry? (cls : KernelClass) : Option Method :=
  cls.methods.find? fun m => m.name == entryName && !m.isConstructor

/-- The methods other than entry methods and constructors. -/
def helpers (cls : KernelClass) : List Method :=
  cls.methods.filter fun m => m.name != entryName && !m.isConstructor

/-- Whether a field, a signature or a node has a `double` type. -/
def usesDouble (cls : KernelClass) : Bool :=
  cls.fields.any (·.ty.mentionsDouble) ||
    cls.methods.any fun m =>
      m.returns.mentionsDouble || m.params.any (·.ty.mentionsDouble) ||
        m.graph.nodes.toList.any (·.ty.mentionsDouble)

end KernelClass

end KernelForge
