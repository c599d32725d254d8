import KernelForge.Source.Context
import KernelForge.Source.Line
import KernelForge.Source.Plan

/-!
# The state of a function under construction

The emitter of one method. It keeps the rows written so far, the declarations for the top of the
function, and for every node whose value already has a name that name. Temporaries of pure values
belong to the scope that they were written in and are forgotten when it closes.
-/

namespace KernelForge.Source

/-- An expression and the type of its value. -/
structure Value where
  ty : Ty
  expr : Expr

/-- A construct that has started and not finished. -/
inductive Open
  | block (block : Block) (exitUsed : Bool)
  | branch (node : NodeId) (inElse : Bool)
  | switch (node : NodeId) (hasDefault : Bool)
  | case (node : NodeId)

/-- The construct that is open. -/
def Open.construct : Open → Construct
  | .block b _ => .block b.label
  | .branch node _ => .branch node
  | .switch node _ => .switch node
  | .case node => .case node

/-- The state of a function under construction. -/
structure Emitter where
  rows : List Row := []
  indent : Nat := 0
  /-- The number of temporaries handed out. It has no bound: names would come round only after
  `2 ^ 32` temporaries of one function. -/
  counter : Nat := 0
  declarations : List Declaration := []
  /-- The names of values that are already computed, newest first. -/
  bound : List (NodeId × Value) := []
  plan : Plan := []
  /-- Shared values that could not be bound before their construct. Their temporaries are declared
  at the top, like those of side effects. -/
  pinned : List NodeId := []
  /-- For every open scope, innermost first, the pure values bound in it. The last scope is that of
  the function. -/
  scopes : List (List NodeId) := [[]]
  /-- The open constructs, innermost first. -/
  opened : List Open := []
  /-- The labels of all blocks started so far. -/
  labels : List String := []
  /-- The nodes rendered so far, in order. -/
  rendered : List NodeId := []

/-- An emission step: it may change the state or fail. What it has changed before it fails stays
changed. -/
abbrev Emit := EStateM Error Emitter

instance : MonadLift (Except Error) Emit where
  monadLift
    | .ok a => pure a
    | .error e => throw e

namespace Emitter

/-- The name of a value that is already computed. -/
def value? (s : Emitter) (id : NodeId) : Option Value :=
  s.bound.lookup id

def isBound (s : Emitter) (id : NodeId) : Bool :=
  (s.value? id).isSome

/-- Whether a block, arm or case is open. -/
def isNested (s : Emitter) : Bool :=
  decide (1 < s.scopes.length)

/-- The innermost open construct. -/
def innermost? (s : Emitter) : Option Construct :=
  s.opened.head?.map Open.construct

/-- The body written so far. -/
def text (s : Emitter) : String :=
  renderRows s.rows

/-- Name the value of a node. -/
def bind (s : Emitter) (id : NodeId) (v : Value) : Emitter :=
  { s with bound := (id, v) :: s.bound }

/-- Append a line at the current indentation. -/
def write (s : Emitter) (line : Line) : Emitter :=
  { s with rows := s.rows ++ [⟨s.indent, line⟩] }

/-- Append a declaration to those at the top. -/
def declare (s : Emitter) (d : Declaration) : Emitter :=
  { s with declarations := s.declarations ++ [d] }

/-- Note a value as bound in the innermost scope. -/
def enterScope (s : Emitter) (id : NodeId) : Emitter :=
  match s.scopes with
  | [] => s
  | scope :: rest => { s with scopes := (scope ++ [id]) :: rest }

/-- Start a scope, one level deeper. -/
def openScope (s : Emitter) : Emitter :=
  { s with indent := s.indent + 1, scopes := [] :: s.scopes }

/-- End the innermost scope and forget the values bound in it. -/
def closeScope (s : Emitter) : Emitter :=
  match s.scopes with
  | [] => { s with indent := s.indent - 1 }
  | scope :: rest =>
    { s with
      indent := s.indent - 1
      scopes := rest
      bound := s.bound.filter (!scope.contains ·.1) }

/-- The next temporary. -/
def nextTemp (s : Emitter) (kind : TempKind) : Temp :=
  ⟨kind, s.counter⟩

/-- Count a temporary as handed out. -/
def countTemp (s : Emitter) : Emitter :=
  { s with counter := s.counter + 1 }

/-- Keep a rendered value in a fresh temporary.

A kept temporary outlives the scope that it is written in, so inside a scope its declaration goes to
the top of the function. Any other temporary is declared where it is written and belongs to that
scope. -/
def materialize (cx : Context) (s : Emitter) (id : NodeId) (ty : Ty) (e : Expr) (keep : Bool) :
    Emitter :=
  let t := s.nextTemp .var
  let type := cx.metadata.declaredType ty
  let s := s.countTemp
  let s :=
    if keep && s.isNested then (s.declare (.scalar type t)).write (.store id t e)
    else
      let s := s.write (.define id type t e)
      if keep then s else s.enterScope id
  s.bind id ⟨ty, .temp t⟩

/-- Declare one temporary for every phi. -/
def declarePhis (cx : Context) (s : Emitter) : Emitter :=
  cx.graph.phis.foldl (fun s phi =>
    let t := s.nextTemp .phi
    (s.countTemp.declare (.scalar (cx.metadata.declaredType phi.ty) t)).bind phi.id
      ⟨phi.ty, .temp t⟩) s

/-- The emitter of a method before its body is walked: the phis are declared and the body is
planned. -/
def start (cx : Context) : Emitter :=
  { declarePhis cx {} with plan := Plan.ofBody cx.graph cx.isShared cx.method.body }

/-- The declarations and the body of the finished function; no construct may be open. -/
def finish (cx : Context) (s : Emitter) : Except Error (List String × String) :=
  match s.opened with
  | [] => .ok (s.declarations.map Declaration.render, s.text)
  | innermost :: _ => .error (.unfinished cx.method.name innermost.construct)

end Emitter

end KernelForge.Source
