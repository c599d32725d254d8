import KernelForge.Kernel.Ty

/-!
# Naming metadata

How helper functions and helper types are spelled in kernel source. A later entry for the same
function or type replaces an earlier one.
-/

namespace KernelForge

/-- The spelling of a helper function; `literal` asks for the form of a vector literal. -/
structure HelperFunction where
  name : String
  literal : Bool
deriving DecidableEq

/-- The spelling of a helper type and, for a vector type, its number of lanes. -/
structure HelperType where
  name : String
  lanes : Option Nat
deriving DecidableEq

/-- The declared spellings, newest first. -/
structure Metadata where
  functions : List ((ClassName × String) × HelperFunction) := []
  types : List (ClassName × HelperType) := []

namespace Metadata

def addFunction (md : Metadata) (owner : ClassName) (method : String) (f : HelperFunction) :
    Metadata :=
  { md with functions := ((owner, method), f) :: md.functions }

def addType (md : Metadata) (cls : ClassName) (t : HelperType) : Metadata :=
  { md with types := (cls, t) :: md.types }

def function? (md : Metadata) (owner : ClassName) (method : String) : Option HelperFunction :=
  md.functions.lookup (owner, method)

def type? (md : Metadata) (cls : ClassName) : Option HelperType :=
  md.types.lookup cls

/-- The class whose methods tell a work-item who it is. -/
def workItemClass : ClassName := ⟨"kir.WorkItem"⟩

/-- The methods of `workItemClass`. -/
def workItemMethods : List String :=
  ["global_id", "global_size", "local_id", "local_size", "group_id"]

/-- Metadata with the methods of `workItemClass`, each spelled `get_` and its own name. -/
def builtins : Metadata :=
  workItemMethods.foldl (fun md m => md.addFunction workItemClass m ⟨"get_" ++ m, false⟩) {}

end Metadata

end KernelForge
