import KernelForge.Kernel.Body

/-!
# Constructs

The constructs of a body that have a beginning and an end, as diagnostics name them.
-/

namespace KernelForge.Source

/-- A construct that starts and finishes. -/
inductive Construct
  | block (label : String)
  | branch (node : NodeId)
  | switch (node : NodeId)
  | case (node : NodeId)
deriving DecidableEq

/-- The construct as diagnostics name it. -/
def Construct.describe : Construct → String
  | .block label => "block " ++ label
  | .branch node => "if " ++ toString node
  | .switch node => "switch " ++ toString node
  | .case node => "case of switch " ++ toString node

/-- The innermost open construct as diagnostics name it. -/
def describeInnermost : Option Construct → String
  | some construct => construct.describe
  | none => "nothing"

/-- The control nodes that choose between ways. -/
inductive Choice
  | branch
  | switch
deriving DecidableEq

def Choice.word : Choice → String
  | .branch => "if"
  | .switch => "switch"

end KernelForge.Source
