import KernelForge.Source.Emitter

/-!
# Evaluating nodes

A node is evaluated by evaluating its operands from left to right and rendering it with their
expressions. Side effects and values with several uses are kept in temporaries when they are first
rendered and are referred to by name afterwards.

`evaluate` keeps two stacks instead of recursing: nodes still to be entered or left, and values of
operands. A node is entered at a depth that bounds the chains of operands below it; since such a chain
meets no node twice unless the operands form a cycle, the size of the graph is enough.
-/

namespace KernelForge.Source

/-- Keep a rendered expression in a temporary if it is a side effect or has several uses and is not
trivial. -/
def settle (cx : Context) (id : NodeId) (node : Node) (e : Expr) : Emit Value := do
  let s ← get
  match s.value? id with
  | some v => return v
  | none =>
    if node.ty.isVoid then return ⟨node.ty, e⟩
    else if node.hasSideEffects ||
        (decide (1 < cx.graph.useCount id) && !cx.isTrivial node) then
      let s := s.materialize cx id node.ty e (node.hasSideEffects || s.pinned.contains id)
      set s
      return (s.value? id).getD ⟨node.ty, e⟩
    else return ⟨node.ty, e⟩

/-- Render a node with the values of its evaluated operands. -/
def produce (cx : Context) (id : NodeId) (node : Node) (args : List Value) : Emit Value := do
  let rendering ← cx.rendering id node (args.map Value.expr)
  modify fun s => { s with rendered := s.rendered ++ [id] }
  match rendering with
  | .expr e => settle cx id node e
  | .privateArray element length =>
    let s ← get
    let t := s.nextTemp .var
    let v : Value := ⟨node.ty, .temp t⟩
    set ((s.countTemp.declare (.array element t length)).bind id v)
    return v

/-- What is still to be done: enter a node that may have `depth` operands below each other, or leave
a node whose operands are evaluated. -/
inductive Frame
  | enter (id : NodeId) (depth : Nat)
  | leave (id : NodeId) (node : Node)

/-- The number of steps that entering a node at a depth may take in a graph of a given width. -/
def enterCost (width : Nat) : Nat → Nat
  | 0 => 1
  | depth + 1 => width * enterCost width depth + 2

/-- A bound on the steps of a frame. -/
def Frame.cost (width : Nat) : Frame → Nat
  | .enter _ depth => enterCost width depth
  | .leave _ _ => 1

/-- A bound on the steps of all frames. -/
def framesCost (width : Nat) : List Frame → Nat
  | [] => 0
  | frame :: rest => frame.cost width + framesCost width rest

theorem enterCost_pos (width depth : Nat) : 0 < enterCost width depth := by
  cases depth <;> simp [enterCost]

theorem Frame.cost_pos (width : Nat) (frame : Frame) : 0 < frame.cost width := by
  cases frame <;> simp [Frame.cost, enterCost_pos]

theorem framesCost_lt_cons (width : Nat) (frame : Frame) (rest : List Frame) :
    framesCost width rest < framesCost width (frame :: rest) := by
  have := frame.cost_pos width
  rw [framesCost]
  omega

theorem framesCost_enter (width depth : Nat) (ids : List NodeId) :
    framesCost width (ids.map (Frame.enter · depth)) = ids.length * enterCost width depth := by
  induction ids with
  | nil => simp [framesCost]
  | cons id rest ih =>
    simp only [List.map_cons, List.length_cons, framesCost]
    rw [ih, Frame.cost, Nat.succ_mul]
    omega

theorem framesCost_append (width : Nat) (xs ys : List Frame) :
    framesCost width (xs ++ ys) = framesCost width xs + framesCost width ys := by
  induction xs with
  | nil => simp [framesCost]
  | cons frame rest ih => simp only [List.cons_append, framesCost, ih, Nat.add_assoc]

/-- Replacing a node by its operands and the frame that leaves it takes fewer steps. -/
theorem framesCost_expand {cx : Context} {id : NodeId} {node : Node}
    (h : cx.graph.get? id = some node) (depth : Nat) (rest : List Frame) :
    framesCost cx.graph.width
        ((cx.evaluated node).map (Frame.enter · depth) ++ .leave id node :: rest) <
      framesCost cx.graph.width (.enter id (depth + 1) :: rest) := by
  have hle : (cx.evaluated node).length ≤ cx.graph.width :=
    Nat.le_trans (cx.length_evaluated_le node) (Graph.length_operands_le_width h)
  have hmul := Nat.mul_le_mul_right (enterCost cx.graph.width depth) hle
  rw [framesCost_append, framesCost_enter]
  simp only [framesCost, Frame.cost, enterCost]
  omega

/-- Work off all frames; `results` holds the values of operands, newest first. -/
def runFrames (cx : Context) (frames : List Frame) (results : List Value) : Emit (List Value) :=
  match frames with
  | [] => return results
  | .leave id node :: rest => do
    let arity := (cx.evaluated node).length
    if results.length < arity then throw (.operandsMissing arity id results.length)
    let v ← produce cx id node (results.take arity).reverse
    runFrames cx rest (v :: results.drop arity)
  | .enter id depth :: rest => do
    match (← get).value? id with
    | some v => runFrames cx rest (v :: results)
    | none =>
      match _h : cx.graph.get? id with
      | none => throw (.outside id cx.method.name)
      | some node =>
        if (cx.evaluated node).isEmpty then
          let v ← produce cx id node []
          runFrames cx rest (v :: results)
        else
          match depth with
          | 0 => throw (.endless id)
          | depth + 1 =>
            runFrames cx ((cx.evaluated node).map (.enter · depth) ++ .leave id node :: rest)
              results
termination_by framesCost cx.graph.width frames
decreasing_by
  · exact framesCost_lt_cons _ _ _
  · exact framesCost_lt_cons _ _ _
  · exact framesCost_lt_cons _ _ _
  · exact framesCost_expand _h depth rest

/-- The value of a node; temporaries that it needs are written first. -/
def evaluate (cx : Context) (root : NodeId) : Emit Value := do
  match ← runFrames cx [.enter root cx.graph.size] [] with
  | [v] => return v
  | results => throw (.resultCount root results.length)

end KernelForge.Source
