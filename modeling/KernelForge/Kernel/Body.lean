import KernelForge.Kernel.Node

/-!
# Structured bodies

The body of a method is a tree of statements. `events` lists, in source order, what happens when the
tree is walked: a construct starts, its parts follow, it finishes. `replay` hands the same events one
by one to a sink without recursion on the tree: it keeps a list of what is still to come. A sink is
any monadic action on events, so it may keep a state and may stop the walk with an error.
-/

namespace KernelForge

universe u

/-- A labelled block. A jump out of it may come from anywhere inside; only a loop can be
continued. -/
structure Block where
  label : String
  isLoop : Bool
deriving DecidableEq

/-- A label as diagnostics show it. -/
def Block.describeLabel (label : String) : String :=
  "Label(" ++ label ++ ")"

/-- A statement. `source` names the control node that the edge being taken leaves. -/
inductive Stmt
  /-- A node with a side effect, where it was scheduled. -/
  | effect (node : NodeId)
  | ret (node : NodeId)
  /-- Leave the labelled block. -/
  | leave (source : NodeId) (label : String)
  /-- Start the labelled loop again. -/
  | again (source : NodeId) (label : String)
  /-- Fall through into a join of values. -/
  | edge (source : NodeId)
  | block (block : Block) (body : List Stmt)
  | branch (node : NodeId) (thenBody elseBody : List Stmt)
  | switch (node : NodeId) (arms : List (Int32 × List Stmt)) (fallback : List Stmt)

/-- One thing that happens while a body is walked. -/
inductive Event
  | startBlock (block : Block)
  | finishBlock (block : Block)
  | effect (node : NodeId)
  | ret (node : NodeId)
  | startIf (node : NodeId)
  | startElse (node : NodeId)
  | finishIf (node : NodeId)
  | startSwitch (node : NodeId)
  /-- The key of the case, or the default case. -/
  | startCase (node : NodeId) (key : Option Int32)
  | finishCase (node : NodeId)
  | finishSwitch (node : NodeId)
  | leave (source : NodeId) (label : String)
  | again (source : NodeId) (label : String)
  | edge (source : NodeId)
deriving DecidableEq

mutual

/-- The events of a statement. -/
def Stmt.events : Stmt → List Event
  | .effect node => [.effect node]
  | .ret node => [.ret node]
  | .leave source label => [.leave source label]
  | .again source label => [.again source label]
  | .edge source => [.edge source]
  | .block b body => .startBlock b :: (bodyEvents body ++ [.finishBlock b])
  | .branch node thenBody elseBody =>
    .startIf node ::
      (bodyEvents thenBody ++ .startElse node :: (bodyEvents elseBody ++ [.finishIf node]))
  | .switch node arms fallback =>
    .startSwitch node ::
      (armEvents node arms ++
        .startCase node none :: (bodyEvents fallback ++ [.finishCase node, .finishSwitch node]))

/-- The events of a body. -/
def bodyEvents : List Stmt → List Event
  | [] => []
  | stmt :: rest => stmt.events ++ bodyEvents rest

/-- The events of the keyed cases of the switch at `node`. -/
def armEvents (node : NodeId) : List (Int32 × List Stmt) → List Event
  | [] => []
  | (key, body) :: rest =>
    .startCase node (some key) :: (bodyEvents body ++ .finishCase node :: armEvents node rest)

end

/-! ### Replay without recursion on the tree -/

/-- What is still to come in a replay: a statement to walk or a single event. -/
inductive Step
  | visit (stmt : Stmt)
  | emit (event : Event)

/-- The events that a step stands for. -/
def Step.events : Step → List Event
  | .visit stmt => stmt.events
  | .emit event => [event]

/-- The events that a list of steps stands for. -/
def stepEvents (steps : List Step) : List Event :=
  steps.flatMap Step.events

/-- The steps of one case of a switch. -/
def caseSteps (node : NodeId) (key : Option Int32) (body : List Stmt) : List Step :=
  .emit (.startCase node key) :: (body.map .visit ++ [.emit (.finishCase node)])

/-- The first event of a statement. -/
def Stmt.first : Stmt → Event
  | .effect node => .effect node
  | .ret node => .ret node
  | .leave source label => .leave source label
  | .again source label => .again source label
  | .edge source => .edge source
  | .block b _ => .startBlock b
  | .branch node _ _ => .startIf node
  | .switch node _ _ => .startSwitch node

/-- What remains of a statement after its first event. -/
def Stmt.remaining : Stmt → List Step
  | .effect _ | .ret _ | .leave _ _ | .again _ _ | .edge _ => []
  | .block b body => body.map .visit ++ [.emit (.finishBlock b)]
  | .branch node thenBody elseBody =>
    thenBody.map .visit ++ .emit (.startElse node) :: (elseBody.map .visit ++
      [.emit (.finishIf node)])
  | .switch node arms fallback =>
    arms.flatMap (fun arm => caseSteps node (some arm.1) arm.2) ++
      (caseSteps node none fallback ++ [.emit (.finishSwitch node)])

theorem stepEvents_append (xs ys : List Step) :
    stepEvents (xs ++ ys) = stepEvents xs ++ stepEvents ys := by
  simp [stepEvents]

theorem stepEvents_cons (x : Step) (xs : List Step) :
    stepEvents (x :: xs) = x.events ++ stepEvents xs := by
  simp [stepEvents]

/-- Visiting the statements of a body gives the events of the body. -/
theorem stepEvents_visit (body : List Stmt) : stepEvents (body.map .visit) = bodyEvents body := by
  induction body with
  | nil => simp [stepEvents, bodyEvents]
  | cons stmt rest ih => simp [stepEvents_cons, Step.events, bodyEvents, ih]

theorem stepEvents_caseSteps (node : NodeId) (key : Option Int32) (body : List Stmt) :
    stepEvents (caseSteps node key body) =
      .startCase node key :: (bodyEvents body ++ [.finishCase node]) := by
  simp only [caseSteps, stepEvents_cons, stepEvents_append, stepEvents_visit]
  simp [Step.events, stepEvents]

theorem stepEvents_arms (node : NodeId) (arms : List (Int32 × List Stmt)) :
    stepEvents (arms.flatMap fun arm => caseSteps node (some arm.1) arm.2) =
      armEvents node arms := by
  induction arms with
  | nil => simp [stepEvents, armEvents]
  | cons arm rest ih =>
    obtain ⟨key, body⟩ := arm
    simp only [List.flatMap_cons, stepEvents_append, stepEvents_caseSteps, ih, armEvents]
    simp

/-- A statement is its first event followed by what remains. -/
theorem Stmt.events_eq (stmt : Stmt) : stmt.events = stmt.first :: stepEvents stmt.remaining := by
  cases stmt with
  | effect | ret | leave | again | edge =>
    simp [Stmt.events, Stmt.first, Stmt.remaining, stepEvents]
  | block b body =>
    simp only [Stmt.events, Stmt.first, Stmt.remaining, stepEvents_append, stepEvents_visit]
    simp [stepEvents, Step.events]
  | branch node thenBody elseBody =>
    simp only [Stmt.events, Stmt.first, Stmt.remaining, stepEvents_append, stepEvents_cons,
      stepEvents_visit]
    simp [stepEvents, Step.events]
  | switch node arms fallback =>
    simp only [Stmt.events, Stmt.first, Stmt.remaining, stepEvents_append, stepEvents_arms,
      stepEvents_caseSteps]
    simp [stepEvents, Step.events]

/-- Hand the events of `steps` to `sink`, first to last. -/
def replaySteps {m : Type → Type u} [Monad m] (sink : Event → m Unit) : List Step → m Unit
  | [] => pure ()
  | .emit event :: rest => do
    sink event
    replaySteps sink rest
  | .visit stmt :: rest => do
    sink stmt.first
    replaySteps sink (stmt.remaining ++ rest)
termination_by steps => (stepEvents steps).length
decreasing_by
  · simp [stepEvents_cons, Step.events]
  · simp [stepEvents_cons, stepEvents_append, Step.events, Stmt.events_eq stmt]

/-- Hand the events of a body to `sink` in source order. -/
def replay {m : Type → Type u} [Monad m] (sink : Event → m Unit) (body : List Stmt) : m Unit :=
  replaySteps sink (body.map .visit)

end KernelForge
