import KernelForge.Kernel.Class
import KernelForge.Source.Error
import KernelForge.Source.Expr
import KernelForge.Source.TypeName

/-!
# A method in its class

What the generated text of a node depends on besides the texts of its operands: the class with its
fields, methods and metadata, and the method with its graph.
-/

namespace KernelForge.Source

/-- A method together with the class it belongs to. -/
structure Context where
  cls : KernelClass
  method : Method

namespace Context

def graph (cx : Context) : Graph :=
  cx.method.graph

def metadata (cx : Context) : Metadata :=
  cx.cls.metadata

/-- A node of the method, or the complaint that there is none. -/
def node (cx : Context) (id : NodeId) : Except Error Node :=
  match cx.graph.get? id with
  | some node => .ok node
  | none => .error (.outside id cx.method.name)

/-- Whether the first operand is the kernel object. -/
def onReceiver (cx : Context) (node : Node) : Bool :=
  match node.operands.head?.bind cx.graph.get? with
  | some ⟨.receiver, _, _⟩ => true
  | _ => false

/-- Whether the first operand is the kernel object and is resolved by name instead of being
evaluated. -/
def skipsReceiver (cx : Context) (node : Node) : Bool :=
  match node.kind with
  | .getField _ | .putField _ => cx.onReceiver node
  | .invoke call => call.hasReceiver && cx.onReceiver node
  | _ => false

/-- The operands that are evaluated before a node. A phi has none, since it is assigned on the edges
that lead to it. -/
def evaluated (cx : Context) (node : Node) : List NodeId :=
  if node.kind.isPhi then []
  else if cx.skipsReceiver node then node.operands.drop 1
  else node.operands

theorem length_evaluated_le (cx : Context) (node : Node) :
    (cx.evaluated node).length ≤ node.operands.length := by
  unfold evaluated
  split
  · simp
  · split <;> simp

/-- A node whose text is so short that it is repeated rather than kept in a temporary. -/
def isTrivial (cx : Context) (node : Node) : Bool :=
  match node.kind with
  | .param _ | .receiver => true
  | .getField _ => cx.onReceiver node
  | kind => kind.isConstant

/-- A pure value that is worth a temporary: it has several uses and is not trivial. -/
def isShared (cx : Context) (id : NodeId) : Bool :=
  match cx.graph.get? id with
  | none => false
  | some node =>
    decide (1 < cx.graph.useCount id) && !node.ty.isVoid && !node.kind.isControlMarker &&
      !node.kind.isPhi && !node.hasSideEffects && !cx.isTrivial node

/-- The kernel arguments as every call of a method of the class passes them on. -/
def forwarded (cx : Context) : List Expr :=
  cx.cls.fields.map fun field => .name (Identifier.ofName field.name)

/-- The kernel argument that stands for a field. -/
def argument (cx : Context) (field : String) : Except Error Expr :=
  match cx.cls.fields.find? (·.name == field) with
  | some found => .ok (.name (Identifier.ofName found.name))
  | none => .error (.unknownField field cx.cls.name)

/-! ### What a node becomes -/

/-- What a node becomes: an expression, or a private array that is declared at the top of the
function. -/
inductive Rendering
  | expr (e : Expr)
  | privateArray (element : String) (length : Int32)

/-- A call. Calls of methods of the kernel class get the kernel arguments after their own; other
calls need a declared spelling. -/
def call (cx : Context) (id : NodeId) (node : Node) (target : Invocation) (args : List Expr) :
    Except Error Expr :=
  let onReceiver := target.hasReceiver && cx.onReceiver node
  if target.kind = .dynamic then .error (.dynamicCall target.owner target.method)
  else if target.owner = cx.cls.name then
    if target.hasReceiver && !onReceiver then .error (.foreignReceiver target.method)
    else match cx.cls.method? target.method with
      | none => .error (.unknownMethod target.method target.owner)
      | some method => .ok (.call (Identifier.ofName method.name) (args ++ cx.forwarded))
  else match target.kind with
    | .virtual | .interface => .error (.virtualCall target.owner target.method)
    | .special => .error (.specialCall target.owner target.method)
    | .static | .dynamic =>
      match cx.metadata.function? target.owner target.method with
      | none => .error (.unknownFunction target.owner target.method id)
      | some helper =>
        .ok (if helper.literal then .vector helper.name args else .call helper.name args)

/-- A private array: one dimension and a positive constant length. -/
def privateArray (cx : Context) (node : Node) : Except Error Rendering :=
  match node.ty.element? with
  | none => .error .multiArray
  | some element =>
    if element.isArray then .error .multiArray
    else match node.operands.head?.bind cx.graph.get? with
      | some ⟨.int length, _, _⟩ =>
        if 0 < length then .ok (.privateArray (cx.metadata.typeName element) length)
        else .error .allocationLength
      | _ => .error .allocationLength

/-- An expression in one operand. -/
def unary (id : NodeId) (args : List Expr) (f : Expr → Expr) : Except Error Expr :=
  match args with
  | [a] => .ok (f a)
  | _ => .error (.arity 1 id args.length)

/-- An expression in two operands. -/
def pair (id : NodeId) (args : List Expr) (f : Expr → Expr → Expr) : Except Error Expr :=
  match args with
  | [a, b] => .ok (f a b)
  | _ => .error (.arity 2 id args.length)

/-- An expression in three operands. -/
def triple (id : NodeId) (args : List Expr) (f : Expr → Expr → Expr → Expr) : Except Error Expr :=
  match args with
  | [a, b, c] => .ok (f a b c)
  | _ => .error (.arity 3 id args.length)

/-- A binary operation. Only the shift that fills with zeros depends on the type. -/
def binary (op : BinaryOp) (ty : Ty) (lhs rhs : Expr) : Expr :=
  match op, ty with
  | .ushr, .int => .shiftUnsigned false lhs rhs
  | .ushr, .long => .shiftUnsigned true lhs rhs
  | _, _ => .binary op lhs rhs

/-- The expression of a node, given those of its evaluated operands. -/
def express (cx : Context) (id : NodeId) (node : Node) (args : List Expr) : Except Error Expr :=
  match node.kind with
  | .int value => .ok (.int value)
  | .long value => .ok (.long value)
  | .float bits => .ok (.float bits)
  | .double bits => .ok (.double bits)
  | .string text => .ok (.string text)
  | .null => .error .nullReference
  | .classLiteral cls => .error (.classLiteral cls)
  | .param index =>
    match cx.method.params[index]? with
    | some param => .ok (.name (Identifier.ofName param.name))
    | none => .error (.parameterRange index cx.method.name)
  | .receiver => .error .receiverAsValue
  | .binary op => pair id args (binary op node.ty)
  | .negate => unary id args .negate
  | .compare op => pair id args (.compare op)
  | .threeWay mode => pair id args (.threeWay mode)
  | .refCompare _ => .error .refCompare
  | .convert => unary id args (.cast (cx.metadata.typeName node.ty))
  | .getField field =>
    if cx.onReceiver node then
      match args with
      | [] => cx.argument field
      | _ => .error (.arity 0 id args.length)
    else unary id args (.member · (Identifier.ofName field))
  | .putField field =>
    if cx.onReceiver node then
      match args with
      | [value] => (cx.argument field).map (.assign · value)
      | _ => .error (.arity 1 id args.length)
    else pair id args fun object value => .assign (.member object (Identifier.ofName field)) value
  | .getStatic owner field | .putStatic owner field => .error (.staticField owner field)
  | .arrayLoad => pair id args .element
  | .arrayStore => triple id args fun array index value => .assign (.element array index) value
  | .arrayLength => .error .arrayLength
  | .instanceOf cls | .checkCast cls => .error (.typeTest cls)
  | .new cls => .error (.allocation cls)
  | .newArray | .newMultiArray => .error .multiArray
  | .invoke target => cx.call id node target args
  | .phi _ => .error (.phiUnbound id)
  | .monitorEnter | .monitorExit => .error .monitor
  | .throw | .catch => .error .exception
  | .start | .label | .merge | .loopHeader | .goto | .branch | .switch _ | .ret =>
    .error (.controlAsValue id)

/-- What a node becomes, given the expressions of its evaluated operands. -/
def rendering (cx : Context) (id : NodeId) (node : Node) (args : List Expr) :
    Except Error Rendering :=
  match node.kind with
  | .newArray => cx.privateArray node
  | _ => (cx.express id node args).map .expr

end Context

end KernelForge.Source
