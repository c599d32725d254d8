import KernelForge.Source.Hoisting

/-!
# Emitting statements

The emitter takes the events of a body one by one. A block becomes a labelled brace pair, a loop a
labelled `while`; leaving a block is a jump to the mark after it, which is written only if some jump
needs it. Phis are assigned on every edge that leaves a predecessor, just before the jump.
-/

namespace KernelForge.Source

/-- Append a line. -/
def emitLine (line : Line) : Emit Unit :=
  modify (·.write line)

/-- The operand of a branch or switch node. -/
def choiceOperand (cx : Context) (choice : Choice) (id : NodeId) : Except Error NodeId := do
  let node ← cx.node id
  let fits := match choice, node.kind with
    | .branch, .branch => true
    | .switch, .switch _ => true
    | _, _ => false
  if !fits then throw (.notChoice choice id)
  match node.operands with
  | [operand] => return operand
  | operands => throw (.choiceArity choice id operands.length)

/-! ### Phi assignments -/

/-- The phis that take a new value on the edge that leaves `source`, with the values. A phi that
keeps its own value is left out. -/
def phiMoves (cx : Context) (source : NodeId) : Except Error (List (NodeId × NodeId)) := do
  let moves ← cx.graph.phis.mapM fun phi =>
    (phi.inputsFrom source).mapM fun input =>
      match input with
      | some value => .ok (phi.id, value)
      | none => .error (.phiWithoutValue phi.id source)
  return moves.flatten.filter fun move => move.2 != move.1

/-- Evaluate an incoming value. With several moves on an edge the value is staged in a temporary,
since the new value of one phi may read the old value of another. -/
def incoming (cx : Context) (staged : Bool) (move : NodeId × NodeId) : Emit (NodeId × Expr) := do
  let v ← evaluate cx move.2
  let node ← cx.node move.2
  if staged && !node.kind.isConstant then
    let s ← get
    let t := s.nextTemp .var
    set (s.countTemp.write (.stage (cx.metadata.declaredType v.ty) t v.expr))
    return (move.1, .temp t)
  else return (move.1, v.expr)

/-- Assign a phi. -/
def feed (assignment : NodeId × Expr) : Emit Unit := do
  match (← get).value? assignment.1 with
  | some ⟨_, .temp t⟩ => emitLine (.feed assignment.1 t assignment.2)
  | _ => throw (.phiUnbound assignment.1)

/-- Assign every phi that takes a new value on the edge that leaves `source`. -/
def assignPhis (cx : Context) (source : NodeId) : Emit Unit := do
  let moves ← phiMoves cx source
  let assignments ← moves.mapM (incoming cx (decide (1 < moves.length)))
  assignments.forM feed

/-! ### Blocks -/

def startBlock (cx : Context) (b : Block) : Emit Unit := do
  if (← get).labels.contains b.label then throw (.duplicateLabel b.label cx.method.name)
  modify fun s => { s with labels := b.label :: s.labels }
  hoist cx (.block b.label)
  emitLine (.openBlock b)
  modify fun s => { s.openScope with opened := .block b false :: s.opened }

/-- Finish a construct, which has to be the innermost open one. Whatever is innermost is taken off
before it is looked at, so that it is gone also if it is another one. -/
def finishInnermost (c : Construct) (close : Open → Emitter → Emitter) : Emit Unit := do
  let s ← get
  match s.opened with
  | [] => throw (.misclosed c none)
  | o :: rest =>
    set { s with opened := rest }
    if o.construct = c then modify (close o) else throw (.misclosed c (some o.construct))

/-- End a block; its end is marked if some jump needs it. -/
def closeBlock (o : Open) (s : Emitter) : Emitter :=
  let s := s.closeScope.write .close
  match o with
  | .block b true => s.write (.exitMark b.label)
  | _ => s

def finishBlock (b : Block) : Emit Unit :=
  finishInnermost (.block b.label) closeBlock

/-- Whether an open construct is the block of a label. -/
def Open.isBlock (label : String) : Open → Bool
  | .block b _ => b.label == label
  | _ => false

/-- The innermost open block of a label. -/
def openBlock? (s : Emitter) (label : String) : Option Block :=
  s.opened.findSome? fun o =>
    match o with
    | .block b _ => if b.label == label then some b else none
    | _ => none

/-- Note that the innermost open block of a label is left by a jump. -/
def markExit (label : String) : List Open → List Open
  | [] => []
  | .block b used :: rest =>
    if b.label == label then .block b true :: rest else .block b used :: markExit label rest
  | o :: rest => o :: markExit label rest

def writeLeave (cx : Context) (source : NodeId) (label : String) : Emit Unit := do
  if (openBlock? (← get) label).isNone then throw (.leaveClosed label)
  modify fun s => { s with opened := markExit label s.opened }
  assignPhis cx source
  emitLine (.gotoExit label)

def writeAgain (cx : Context) (source : NodeId) (label : String) : Emit Unit := do
  match openBlock? (← get) label with
  | none => throw (.againClosed label)
  | some b =>
    if !b.isLoop then throw (.againNotLoop label)
    assignPhis cx source
    emitLine (.gotoStart label)

/-! ### Effects and returns -/

def writeEffect (cx : Context) (id : NodeId) : Emit Unit := do
  if (← get).isBound id then return
  let v ← evaluate cx id
  let node ← cx.node id
  if node.ty.isVoid then emitLine (.effect id v.expr)
  else if !(← get).isBound id then
    modify fun s => s.materialize cx id node.ty v.expr false

def writeReturn (cx : Context) (id : NodeId) : Emit Unit := do
  let node ← cx.node id
  match node.kind with
  | .ret =>
    match node.operands with
    | [] => emitLine (.ret none)
    | [value] =>
      let v ← evaluate cx value
      emitLine (.ret (some v.expr))
    | operands => throw (.returnArity id operands.length)
  | _ => throw (.notReturn id)

/-! ### Branches -/

def startIf (cx : Context) (id : NodeId) : Emit Unit := do
  let condition ← choiceOperand cx .branch id
  let v ← evaluate cx condition
  hoist cx (.choice id)
  emitLine (.openIf v.expr)
  modify fun s => { s.openScope with opened := .branch id false :: s.opened }

def startElse (id : NodeId) : Emit Unit := do
  let s ← get
  match s.opened with
  | .branch opened false :: rest =>
    if opened = id then
      set ({ s with opened := .branch id true :: rest }.closeScope.write .otherwise).openScope
    else throw (.misplacedElse id s.innermost?)
  | _ => throw (.misplacedElse id s.innermost?)

def finishIf (id : NodeId) : Emit Unit :=
  finishInnermost (.branch id) fun _ s => s.closeScope.write .close

/-! ### Switches -/

def startSwitch (cx : Context) (id : NodeId) : Emit Unit := do
  let value ← choiceOperand cx .switch id
  let v ← evaluate cx value
  hoist cx (.choice id)
  emitLine (.openSwitch v.expr)
  modify fun s => { s with indent := s.indent + 1, opened := .switch id false :: s.opened }

def startCase (id : NodeId) (key : Option Int32) : Emit Unit := do
  let s ← get
  match s.opened with
  | .switch opened hasDefault :: rest =>
    if opened = id then
      let s := { s with opened := .switch id (hasDefault || key.isNone) :: rest }
      let s := (s.write (.openCase key)).openScope
      set { s with opened := .case id :: s.opened }
    else throw (.misplacedCase id s.innermost?)
  | _ => throw (.misplacedCase id s.innermost?)

def finishCase (id : NodeId) : Emit Unit :=
  finishInnermost (.case id) fun _ s => (s.write .endCase).closeScope.write .close

/-- An empty default case. -/
def writeDefault (s : Emitter) : Emitter :=
  let s := s.write (.openCase none)
  let s := { s with indent := s.indent + 1 }.write .endCase
  { s with indent := s.indent - 1 }.write .close

/-- End a switch, which gets an empty default case if it has none. -/
def closeSwitch (o : Open) (s : Emitter) : Emitter :=
  let s := match o with
    | .switch _ false => writeDefault s
    | _ => s
  { s with indent := s.indent - 1 }.write .close

def finishSwitch (id : NodeId) : Emit Unit :=
  finishInnermost (.switch id) closeSwitch

/-- Take one event. -/
def emitEvent (cx : Context) : Event → Emit Unit
  | .startBlock b => startBlock cx b
  | .finishBlock b => finishBlock b
  | .effect id => writeEffect cx id
  | .ret id => writeReturn cx id
  | .startIf id => startIf cx id
  | .startElse id => startElse id
  | .finishIf id => finishIf id
  | .startSwitch id => startSwitch cx id
  | .startCase id key => startCase id key
  | .finishCase id => finishCase id
  | .finishSwitch id => finishSwitch id
  | .leave source label => writeLeave cx source label
  | .again source label => writeAgain cx source label
  | .edge source => assignPhis cx source

/-- Emit the body of a method: its declarations and its text. -/
def emitBody (cx : Context) : Except Error (List String × String) :=
  match (replay (emitEvent cx) cx.method.body).run (Emitter.start cx) with
  | .ok () s => s.finish cx
  | .error e _ => .error e

end KernelForge.Source
