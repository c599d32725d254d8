import KernelForge.Source.Page
import KernelForge.Source.Statement

/-!
# Compilation units

The source of a kernel class: prototypes of the helper methods, their definitions, and the entry
function last.
-/

namespace KernelForge.Source

/-- The generated source of a kernel class. -/
structure KernelSource where
  text : String
  /-- The name of the entry function. -/
  entryPoint : String
  /-- The parameters of the entry function that stand for fields, in order. -/
  arguments : List Variable

/-- Whether a function is the one that runs for each work-item, or is called by others. -/
inductive Role
  | entry
  | helper
deriving DecidableEq

/-- The declarations of variables as parameters. -/
def declareAll (md : Metadata) (vars : List Variable) : List String :=
  vars.map fun v => md.declare v.ty (Identifier.ofName v.name)

/-- A parameter list. -/
def parameterText (params : List String) : String :=
  if params.isEmpty then "void" else ", ".intercalate params

/-- The header of a function. The entry function takes the kernel arguments first and returns
nothing; a helper takes them last. -/
def signature (cx : Context) (role : Role) : Except Error String :=
  let name := Identifier.ofName cx.method.name
  let own := declareAll cx.metadata cx.method.params
  let arguments := declareAll cx.metadata cx.cls.fields
  match role with
  | .entry =>
    if cx.method.returns.isVoid then
      .ok ("__kernel void " ++ name ++ "(" ++ parameterText (arguments ++ own) ++ ")")
    else .error (.entryReturns cx.method.name)
  | .helper =>
    .ok (cx.metadata.typeName cx.method.returns ++ " " ++ name ++ "(" ++
      parameterText (own ++ arguments) ++ ")")

/-- Append the definition of a function. -/
def writeFunction (cx : Context) (role : Role) (page : Page) : Except Error Page := do
  let header ← signature cx role
  let (declarations, body) ← emitBody cx
  let page := (page.writeLine (header ++ " \x7b")).deeper
  let page := (declarations.foldl Page.writeLine page).writeLines body
  return page.back.writeLine "\x7d"

/-- Append the prototypes of the helper methods. -/
def writePrototypes (cls : KernelClass) (page : Page) : Except Error Page := do
  if cls.helpers.isEmpty then return page
  let page ← cls.helpers.foldlM (fun page helper => do
    let header ← signature ⟨cls, helper⟩ .helper
    return page.writeLine (header ++ ";")) page
  return page.newline

/-- The source of a kernel class. -/
def generate (cls : KernelClass) : Except Error KernelSource := do
  let entry ← match cls.entry? with
    | some entry => .ok entry
    | none => .error (.noEntry cls.name)
  let page : Page := {}
  let page :=
    if cls.usesDouble then
      (page.writeLine "#pragma OPENCL EXTENSION cl_khr_fp64 : enable").newline
    else page
  let page ← writePrototypes cls page
  let page ← cls.helpers.foldlM (fun page helper => do
    let page ← writeFunction ⟨cls, helper⟩ .helper page
    return page.newline) page
  let page ← writeFunction ⟨cls, entry⟩ .entry page
  return ⟨page.text, Identifier.ofName entry.name, cls.fields⟩

end KernelForge.Source
