import KernelForge.Source.Evaluation

/-!
# Binding planned values

Before a construct opens, the shared values planned for it are evaluated. A value that depends on a
side effect not yet run, or on a phi that is assigned inside the construct, cannot be evaluated early;
it is pinned instead, so that its temporary stays in sight after the construct.
-/

namespace KernelForge.Source

/-- What stands between a value and its early evaluation. -/
inductive Obstacle
  | unstablePhi
  | sideEffect
  | outside
deriving DecidableEq

/-- Whether a node that is met while looking below a value is an obstacle. -/
def obstacle? (cx : Context) (s : Emitter) (unstable : List NodeId) (id : NodeId) :
    Option Obstacle :=
  if unstable.contains id then some .unstablePhi
  else if s.isBound id then none
  else match cx.graph.get? id with
    | none => some .outside
    | some node => if node.hasSideEffects then some .sideEffect else none

/-- Everything that would be evaluated together with `id`, not looking below values that already
have a name. -/
def needed (cx : Context) (s : Emitter) (id : NodeId) : List NodeId :=
  cx.graph.visit (fun id node => if s.isBound id then [] else cx.evaluated node) [id]

/-- Whether a value can be evaluated now, without running a side effect early or reading a phi that
is still to be assigned. -/
def isAvailable (cx : Context) (s : Emitter) (unstable : List NodeId) (id : NodeId) :
    Except Error Bool :=
  match (needed cx s id).findSome? fun n => (obstacle? cx s unstable n).map (n, ·) with
  | none => .ok true
  | some (n, .outside) => .error (.outside n cx.method.name)
  | some (_, _) => .ok false

/-- Evaluate one planned value now, or pin it. -/
def hoistNode (cx : Context) (unstable : List NodeId) (id : NodeId) : Emit Unit := do
  let s ← get
  if s.isBound id then return
  if ← isAvailable cx s unstable id then
    let _ ← evaluate cx id
  else
    modify fun s => { s with pinned := id :: s.pinned }

/-- Bind what is planned for a construct; the plan has an entry for its first occurrence only. -/
def hoist (cx : Context) (anchor : Anchor) : Emit Unit := do
  match (← get).plan.hoist? anchor with
  | none => return
  | some planned =>
    modify fun s => { s with plan := s.plan.without anchor }
    planned.nodes.forM (hoistNode cx planned.unstable)

end KernelForge.Source
