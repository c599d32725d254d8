import KernelForge.Kernel.Ty

/-!
# Nodes

The closed set of operations of an analysed method. A node has a kind, a type and operands; what the
operands mean depends on the kind.
-/

namespace KernelForge

/-- The position of a node in its graph. -/
abbrev NodeId := Nat

/-- Binary arithmetic. `shr` keeps the sign, `ushr` fills with zeros. -/
inductive BinaryOp
  | add | sub | mul | div | rem | and | or | xor | shl | shr | ushr
deriving DecidableEq

/-- The operator in kernel source. -/
def BinaryOp.symbol : BinaryOp → String
  | .add => "+"
  | .sub => "-"
  | .mul => "*"
  | .div => "/"
  | .rem => "%"
  | .and => "&"
  | .or => "|"
  | .xor => "^"
  | .shl => "<<"
  | .shr | .ushr => ">>"

/-- Comparisons. -/
inductive CompareOp
  | eq | ne | lt | le | gt | ge
deriving DecidableEq

/-- The operator in kernel source. -/
def CompareOp.symbol : CompareOp → String
  | .eq => "=="
  | .ne => "!="
  | .lt => "<"
  | .le => "<="
  | .gt => ">"
  | .ge => ">="

/-- How a comparison with results -1, 0 and 1 treats operands that are not ordered: integers always
are, otherwise the result is -1 or 1. -/
inductive ThreeWay
  | integral | nanBelow | nanAbove
deriving DecidableEq

/-- How a call finds its target. -/
inductive CallKind
  | static | special | virtual | interface | dynamic
deriving DecidableEq

/-- The target of a call. -/
structure Invocation where
  kind : CallKind
  owner : ClassName
  method : String
deriving DecidableEq

/-- Whether the first operand of the call is the object it is made on. -/
def Invocation.hasReceiver (call : Invocation) : Bool :=
  match call.kind with
  | .special | .virtual | .interface => true
  | .static | .dynamic => false

/-- How a switch was written. -/
inductive SwitchKind
  | lookup | table
deriving DecidableEq

/-- What a node does. Floating-point constants are kept as bits, so that every value is itself. -/
inductive NodeKind
  | int (value : Int32)
  | long (value : Int64)
  | float (bits : UInt32)
  | double (bits : UInt64)
  | string (text : String)
  | null
  | classLiteral (cls : ClassName)
  /-- A declared parameter of the method. -/
  | param (index : Nat)
  /-- The kernel object itself. -/
  | receiver
  /-- Two operands. -/
  | binary (op : BinaryOp)
  /-- One operand. -/
  | negate
  /-- Two operands. -/
  | compare (op : CompareOp)
  /-- Two operands. -/
  | threeWay (mode : ThreeWay)
  /-- Identity of two objects. -/
  | refCompare (op : CompareOp)
  /-- One operand, converted to the type of the node. -/
  | convert
  /-- The object. -/
  | getField (field : String)
  /-- The object and the new value. -/
  | putField (field : String)
  | getStatic (owner : ClassName) (field : String)
  | putStatic (owner : ClassName) (field : String)
  /-- The array and an index. -/
  | arrayLoad
  /-- The array, an index and the new value. -/
  | arrayStore
  | arrayLength
  | instanceOf (cls : ClassName)
  | checkCast (cls : ClassName)
  | new (cls : ClassName)
  /-- The length; the node has the array type. -/
  | newArray
  | newMultiArray
  /-- The object of the call, if it has one, then the arguments. -/
  | invoke (call : Invocation)
  /-- A value that depends on the way taken: operand `i` flows in from `predecessors[i]`. -/
  | phi (predecessors : List NodeId)
  | start
  | label
  | merge
  | loopHeader
  | goto
  /-- A two-way branch on its operand. -/
  | branch
  /-- A many-way branch on its operand. -/
  | switch (mode : SwitchKind)
  /-- The returned value, if any. -/
  | ret
  | throw
  | catch
  | monitorEnter
  | monitorExit
deriving DecidableEq

namespace NodeKind

/-- Whether a node of this kind and type has to run exactly once, where it was scheduled. -/
def hasSideEffects (kind : NodeKind) (ty : Ty) : Bool :=
  match kind with
  | binary .div | binary .rem => ty.isIntegral
  | invoke _ | arrayLoad | arrayStore | putField _ | putStatic _ _ | new _ | newArray
  | newMultiArray | monitorEnter | monitorExit | throw => true
  | _ => false

/-- Literals. -/
def isConstant : NodeKind → Bool
  | null | int _ | long _ | float _ | double _ | string _ => true
  | _ => false

/-- Marks in the control flow that carry no value. -/
def isControlMarker : NodeKind → Bool
  | start | label | merge | loopHeader | goto => true
  | _ => false

def isPhi : NodeKind → Bool
  | phi _ => true
  | _ => false

/-- The operator in kernel source, for the kinds that have one. -/
def symbol? : NodeKind → Option String
  | binary op => some op.symbol
  | compare op | refCompare op => some op.symbol
  | _ => none

end NodeKind

/-- A node: its kind, its type and the nodes whose values it takes. -/
structure Node where
  kind : NodeKind
  ty : Ty
  operands : List NodeId
deriving DecidableEq

namespace Node

/-- Whether the node has to run exactly once, where it was scheduled. -/
def hasSideEffects (node : Node) : Bool :=
  node.kind.hasSideEffects node.ty

end Node

end KernelForge
