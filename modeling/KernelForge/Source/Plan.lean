import KernelForge.Kernel.Class
import KernelForge.Kernel.Visit

/-!
# Planning where shared values are bound

A pure value is rendered where it is first used. If that place lies inside a construct and the value
is used again in another arm of the construct or after it, a temporary bound at the first use would
be out of sight at the second. The plan lists, for every construct, the shared values to bind just
before it opens.

The events of the body are read once. Every statement and every header of a branch or switch is a
*leaf* with a position; every construct is a *span* of positions with one range for each of its arms.
-/

namespace KernelForge.Source

/-- The construct that a list of values belongs to: a block by its label, a branch or switch by its
control node. -/
inductive Anchor
  | block (label : String)
  | choice (node : NodeId)
deriving DecidableEq

/-- What to bind before a construct opens. -/
structure Hoist where
  /-- The shared values, in order of their first use. -/
  nodes : List NodeId
  /-- The phis that are assigned on an edge that lands inside the construct. -/
  unstable : List NodeId
deriving DecidableEq

/-- The plan of a body, one entry for each construct that has something to bind. -/
abbrev Plan := List (Anchor × Hoist)

namespace Plan

/-- Enter what to bind before a construct; a later entry replaces an earlier one. -/
def enter (plan : Plan) (anchor : Anchor) (hoist : Hoist) : Plan :=
  (anchor, hoist) :: plan.filter (·.1 != anchor)

/-- What to bind before a construct. -/
def hoist? (plan : Plan) (anchor : Anchor) : Option Hoist :=
  plan.lookup anchor

/-- The plan without the entry of a construct. -/
def without (plan : Plan) (anchor : Anchor) : Plan :=
  plan.filter (·.1 != anchor)

end Plan

/-! ### Leaves and spans -/

/-- How an edge is taken: by leaving a block, by starting a loop again, or by falling through. -/
inductive EdgeKind
  | leave
  | again
  | fall
deriving DecidableEq

/-- An edge; `target` is the span that it leaves, starts again, or falls out of. -/
structure Edge where
  source : NodeId
  kind : EdgeKind
  target : Option Nat

/-- A place where values are used. -/
structure Leaf where
  uses : List NodeId
  edge : Option Edge := none

/-- A construct as ranges of leaf positions. An arm is given by its first position and the position
after its last. -/
structure Span where
  anchor : Anchor
  parent : Option Nat
  start : Nat
  stop : Nat
  arms : List (Nat × Nat)

def Span.isBlock (span : Span) (label : String) : Bool :=
  span.anchor == .block label

def Span.isChoice (span : Span) : Bool :=
  match span.anchor with
  | .choice _ => true
  | .block _ => false

/-- The leaves and spans met so far; `opened` lists the spans that are still open, innermost
first. -/
structure Survey where
  leaves : Array Leaf := #[]
  spans : Array Span := #[]
  opened : List Nat := []

namespace Survey

/-- The shared values that are reached from `roots`, not looking through phis. -/
def uses (g : Graph) (shared : NodeId → Bool) (roots : List NodeId) : List NodeId :=
  (g.visit (fun _ node => if node.kind.isPhi then [] else node.operands) roots).filter shared

/-- The values that flow into phis along the edge that leaves `source`. -/
def phiInputs (g : Graph) (source : NodeId) : List NodeId :=
  g.phis.flatMap fun phi => (phi.inputsFrom source).filterMap id

variable (g : Graph) (shared : NodeId → Bool)

/-- Add a leaf that uses what is reached from `roots`. -/
def leaf (s : Survey) (roots : List NodeId) (edge : Option Edge) : Survey :=
  { s with leaves := s.leaves.push ⟨uses g shared roots, edge⟩ }

/-- Open a span, with a first arm unless the arms are announced one by one. -/
def openSpan (s : Survey) (anchor : Anchor) (withArm : Bool) : Survey :=
  let start := s.leaves.size
  { s with
    spans := s.spans.push
      ⟨anchor, s.opened.head?, start, start, if withArm then [(start, start)] else []⟩
    opened := s.spans.size :: s.opened }

/-- Change the innermost open span. -/
def modifyInnermost (s : Survey) (f : Span → Span) : Survey :=
  match s.opened with
  | [] => s
  | i :: _ => { s with spans := s.spans.modify i f }

/-- Begin an arm of the innermost open span. -/
def startArm (s : Survey) : Survey :=
  let start := s.leaves.size
  s.modifyInnermost fun span => { span with arms := span.arms ++ [(start, start)] }

/-- End the last arm of a list of arms at a position. -/
def endLast (stop : Nat) : List (Nat × Nat) → List (Nat × Nat)
  | [] => []
  | [arm] => [(arm.1, stop)]
  | arm :: rest => arm :: endLast stop rest

/-- End the current arm of the innermost open span. -/
def closeArm (s : Survey) : Survey :=
  let stop := s.leaves.size
  s.modifyInnermost fun span => { span with arms := endLast stop span.arms }

/-- Close the innermost open span. -/
def closeSpan (s : Survey) : Survey :=
  let stop := s.leaves.size
  let s := s.modifyInnermost fun span => { span with stop := stop }
  { s with opened := s.opened.drop 1 }

/-- The innermost open span of a kind. -/
def innermost? (s : Survey) (p : Span → Bool) : Option Nat :=
  s.opened.find? fun i => (s.spans[i]?).any p

/-- Take note of one event. -/
def note (s : Survey) : Event → Survey
  | .startBlock b => s.openSpan (.block b.label) true
  | .finishBlock _ | .finishIf _ => s.closeArm.closeSpan
  | .effect node => s.leaf g shared [node] none
  | .ret node => s.leaf g shared (g.operands node) none
  | .startIf node => (s.leaf g shared (g.operands node) none).openSpan (.choice node) true
  | .startElse _ => s.closeArm.startArm
  | .startSwitch node => (s.leaf g shared (g.operands node) none).openSpan (.choice node) false
  | .startCase _ _ => s.startArm
  | .finishCase _ => s.closeArm
  | .finishSwitch _ => s.closeSpan
  | .leave source label =>
    s.leaf g shared (phiInputs g source) (some ⟨source, .leave, s.innermost? (·.isBlock label)⟩)
  | .again source label =>
    s.leaf g shared (phiInputs g source) (some ⟨source, .again, s.innermost? (·.isBlock label)⟩)
  | .edge source =>
    s.leaf g shared (phiInputs g source) (some ⟨source, .fall, s.innermost? Span.isChoice⟩)

/-- Read the events of a body. -/
def ofBody (body : List Stmt) : Survey :=
  (bodyEvents body).foldl (note g shared) {}

/-! ### From spans to the plan -/

/-- Whether span `inner` lies strictly inside span `outer`. A span comes after the one that it lies
in. -/
def isWithin (s : Survey) (inner outer : Nat) : Bool :=
  match (s.spans[inner]?).bind Span.parent with
  | none => false
  | some parent =>
    parent == outer || if parent < inner then s.isWithin parent outer else false
termination_by inner

/-- Whether an edge lands inside span `c`, so that the phis it assigns may change while `c` runs. -/
def landsInside (s : Survey) (edge : Edge) (c : Nat) : Bool :=
  match edge.target with
  | none => true
  | some t =>
    match edge.kind with
    | .again => t == c || s.isWithin t c
    | .leave | .fall => s.isWithin t c

/-- The leaves from one position up to another. -/
def leavesBetween (s : Survey) (start stop : Nat) : List Leaf :=
  (s.leaves.toList.take stop).drop start

/-- The values used in each arm of a span. -/
def armUses (s : Survey) (span : Span) : List (List NodeId) :=
  span.arms.map fun arm => (s.leavesBetween arm.1 arm.2).flatMap Leaf.uses

/-- The values to bind before a span: those used in one of its arms and again in another arm or
after the span, in order of first use. -/
def hoisted (s : Survey) (span : Span) : List NodeId :=
  let arms := s.armUses span
  let after := (s.leavesBetween span.stop s.leaves.size).flatMap Leaf.uses
  arms.flatten.eraseDups.filter fun id =>
    after.contains id || decide (1 < arms.countP (·.contains id))

/-- The phis that are assigned on an edge that lands inside span `c`. -/
def unstable (s : Survey) (c : Nat) (span : Span) : List NodeId :=
  let sources := (s.leavesBetween span.start span.stop).filterMap fun leaf =>
    leaf.edge.bind fun edge => if s.landsInside edge c then some edge.source else none
  (g.phis.filter (·.predecessors.any sources.contains)).map Phi.id

/-- The plan that a survey leads to. -/
def plan (s : Survey) : Plan :=
  s.spans.toList.zipIdx.foldl (fun plan (span, c) =>
    let nodes := s.hoisted span
    if nodes.isEmpty then plan else plan.enter span.anchor ⟨nodes, s.unstable g c span⟩) []

end Survey

/-- Plan a body; `shared` tells which nodes are shared pure values. -/
def Plan.ofBody (g : Graph) (shared : NodeId → Bool) (body : List Stmt) : Plan :=
  (Survey.ofBody g shared body).plan g

end KernelForge.Source
