import KernelForge.Kernel.Node

/-!
# Graphs

The nodes of one method, addressed by position. Operands may refer to earlier and later nodes, so a
graph may have cycles; operands that point outside the graph are allowed and are met as errors where
they are used.
-/

namespace KernelForge

/-- The nodes of one method. -/
structure Graph where
  nodes : Array Node := #[]
deriving DecidableEq

/-- A join of values: which value flows in from which predecessor. -/
structure Phi where
  id : NodeId
  ty : Ty
  predecessors : List NodeId
  inputs : List NodeId

/-- The values that flow in from `source`, one entry for every slot of that predecessor; a slot
without a value gives `none`. -/
def Phi.inputsFrom (phi : Phi) (source : NodeId) : List (Option NodeId) :=
  (phi.predecessors.zipIdx.filter (·.1 == source)).map fun slot => phi.inputs[slot.2]?

namespace Graph

def size (g : Graph) : Nat :=
  g.nodes.size

def get? (g : Graph) (id : NodeId) : Option Node :=
  g.nodes[id]?

/-- The operands of a node, none if it is outside the graph. -/
def operands (g : Graph) (id : NodeId) : List NodeId :=
  ((g.get? id).map Node.operands).getD []

/-- The number of operand slots that refer to a node; a node that takes it twice counts twice. -/
def useCount (g : Graph) (id : NodeId) : Nat :=
  (g.nodes.toList.flatMap Node.operands).count id

/-- The use counts of all nodes, by position. -/
def useCounts (g : Graph) : List Nat :=
  (List.range g.size).map g.useCount

/-- The phi that a node is, if it is one. -/
def phi? (g : Graph) (id : NodeId) : Option Phi :=
  match g.get? id with
  | some ⟨.phi predecessors, ty, inputs⟩ => some ⟨id, ty, predecessors, inputs⟩
  | _ => none

/-- The phis, by position. -/
def phis (g : Graph) : List Phi :=
  (List.range g.size).filterMap g.phi?

/-- The largest number of operands of any node. -/
def width (g : Graph) : Nat :=
  g.nodes.toList.foldr (fun node w => max node.operands.length w) 0

theorem length_le_foldr_max {node : Node} {nodes : List Node} (h : node ∈ nodes) :
    node.operands.length ≤ nodes.foldr (fun n w => max n.operands.length w) 0 := by
  induction nodes with
  | nil => cases h
  | cons n rest ih =>
    cases h with
    | head => exact Nat.le_max_left _ _
    | tail _ h => exact Nat.le_trans (ih h) (Nat.le_max_right _ _)

/-- No node has more operands than the width of its graph. -/
theorem length_operands_le_width {g : Graph} {id : NodeId} {node : Node}
    (h : g.get? id = some node) : node.operands.length ≤ g.width :=
  length_le_foldr_max (Array.mem_toList_iff.2 (Array.mem_of_getElem? h))

/-- A node in the graph has a position below its size. -/
theorem lt_size_of_get? {g : Graph} {id : NodeId} {node : Node}
    (h : g.get? id = some node) : id < g.size :=
  (Array.getElem?_eq_some_iff.1 h).1

/-! ### Building -/

/-- Append a node; its position is the size before. -/
def push (g : Graph) (node : Node) : Graph :=
  ⟨g.nodes.push node⟩

/-- The type of a node, `void` if it is outside the graph. -/
def typeOf (g : Graph) (id : NodeId) : Ty :=
  ((g.get? id).map Node.ty).getD .void

/-- A binary operation has the type of its left operand. -/
def binary (g : Graph) (op : BinaryOp) (lhs rhs : NodeId) : Node :=
  ⟨.binary op, g.typeOf lhs, [lhs, rhs]⟩

/-- A load has the element type of its array. -/
def arrayLoad (g : Graph) (array index : NodeId) : Node :=
  ⟨.arrayLoad, ((g.get? array).bind (·.ty.element?)).getD .void, [array, index]⟩

end Graph

namespace Node

def int (value : Int32) : Node :=
  ⟨.int value, .int, []⟩

def long (value : Int64) : Node :=
  ⟨.long value, .long, []⟩

def float (bits : UInt32) : Node :=
  ⟨.float bits, .float, []⟩

def double (bits : UInt64) : Node :=
  ⟨.double bits, .double, []⟩

def param (index : Nat) (ty : Ty) : Node :=
  ⟨.param index, ty, []⟩

/-- The kernel object of class `cls`. -/
def receiver (cls : ClassName) : Node :=
  ⟨.receiver, .object cls, []⟩

def compare (op : CompareOp) (lhs rhs : NodeId) : Node :=
  ⟨.compare op, .bool, [lhs, rhs]⟩

def convert (value : NodeId) (ty : Ty) : Node :=
  ⟨.convert, ty, [value]⟩

def getField (object : NodeId) (field : String) (ty : Ty) : Node :=
  ⟨.getField field, ty, [object]⟩

def arrayStore (array index value : NodeId) : Node :=
  ⟨.arrayStore, .void, [array, index, value]⟩

def invoke (call : Invocation) (ty : Ty) (operands : List NodeId) : Node :=
  ⟨.invoke call, ty, operands⟩

/-- A phi from pairs of a predecessor and the value that flows in from it. -/
def phi (ty : Ty) (incoming : List (NodeId × NodeId)) : Node :=
  ⟨.phi (incoming.map (·.1)), ty, incoming.map (·.2)⟩

/-- A control node without operands. -/
def marker (kind : NodeKind) : Node :=
  ⟨kind, .void, []⟩

def branch (condition : NodeId) : Node :=
  ⟨.branch, .void, [condition]⟩

def ret (value : Option NodeId) : Node :=
  ⟨.ret, .void, value.toList⟩

end Node

end KernelForge
