import KernelForge.Source.Construct

/-!
# Why source cannot be generated

Every cause has a kind and a text. Configuration causes are mistakes in the kernel class,
unsupported ones are constructs that the kernel language cannot express, and invariant ones are
broken promises of the analysis that produced the graph or the body.
-/

namespace KernelForge.Source

/-- What sort of trouble a cause is. -/
inductive Kind
  | configuration
  | unsupported
  | notYetImplemented
  | invariant
deriving DecidableEq

/-- A cause reduced to its kind and its text. -/
structure Report where
  kind : Kind
  detail : String
deriving DecidableEq

/-- The full message. -/
def Report.message (r : Report) : String :=
  match r.kind with
  | .configuration => "configuration error: " ++ r.detail
  | .unsupported => "unsupported construct: " ++ r.detail
  | .notYetImplemented => "not yet implemented: " ++ r.detail
  | .invariant => "internal invariant violated: " ++ r.detail

/-- A cause for which no source is generated. -/
inductive Error
  | noEntry (cls : ClassName)
  | entryReturns (method : String)
  | unknownField (field : String) (cls : ClassName)
  | unknownMethod (method : String) (owner : ClassName)
  | unknownFunction (owner : ClassName) (method : String) (node : NodeId)
  | nullReference
  | classLiteral (cls : ClassName)
  | receiverAsValue
  | refCompare
  | staticField (owner : ClassName) (field : String)
  | arrayLength
  | typeTest (cls : ClassName)
  | allocation (cls : ClassName)
  | allocationLength
  | dynamicCall (owner : ClassName) (method : String)
  | foreignReceiver (method : String)
  | virtualCall (owner : ClassName) (method : String)
  | specialCall (owner : ClassName) (method : String)
  | monitor
  | exception
  | multiArray
  /-- An operand or statement names a node that the graph does not have. -/
  | outside (node : NodeId) (method : String)
  | parameterRange (index : Nat) (method : String)
  | phiUnbound (node : NodeId)
  | phiWithoutValue (phi : NodeId) (source : NodeId)
  | controlAsValue (node : NodeId)
  | arity (expected : Nat) (node : NodeId) (found : Nat)
  /-- Fewer rendered operands than the node takes. -/
  | operandsMissing (expected : Nat) (node : NodeId) (found : Nat)
  /-- The evaluation of a node left another number of values than one. -/
  | resultCount (node : NodeId) (found : Nat)
  /-- The operands of a node lead back to it. -/
  | endless (node : NodeId)
  | duplicateLabel (label : String) (method : String)
  | misclosed (construct : Construct) (innermost : Option Construct)
  | misplacedElse (node : NodeId) (innermost : Option Construct)
  | misplacedCase (node : NodeId) (innermost : Option Construct)
  | unfinished (method : String) (construct : Construct)
  | notReturn (node : NodeId)
  | returnArity (node : NodeId) (found : Nat)
  | notChoice (choice : Choice) (node : NodeId)
  | choiceArity (choice : Choice) (node : NodeId) (found : Nat)
  | leaveClosed (label : String)
  | againClosed (label : String)
  | againNotLoop (label : String)
deriving DecidableEq

namespace Error

/-- A member of a class as diagnostics name it. -/
def member (owner : ClassName) (name : String) : String :=
  owner.text ++ "." ++ name

/-- The kind and the text of a cause. -/
def report : Error → Report
  | noEntry cls =>
    ⟨.configuration, "kernel class " ++ cls.text ++ " declares no `process_work_item` method"⟩
  | entryReturns method =>
    ⟨.configuration, "entry method `" ++ method ++ "` must not return a value"⟩
  | unknownField field cls =>
    ⟨.configuration, "field `" ++ field ++ "` is not declared on kernel class " ++ cls.text⟩
  | unknownMethod method owner =>
    ⟨.configuration, "method `" ++ method ++ "` is not declared on kernel class " ++ owner.text⟩
  | unknownFunction owner method node =>
    ⟨.configuration, "no kernel-language function declared for " ++ member owner method ++
      " (node " ++ toString node ++ ")"⟩
  | nullReference => ⟨.unsupported, "null reference"⟩
  | classLiteral cls => ⟨.unsupported, "class literal " ++ cls.text ++ " used as a value"⟩
  | receiverAsValue => ⟨.unsupported, "kernel receiver used as a value"⟩
  | refCompare => ⟨.unsupported, "reference identity comparison"⟩
  | staticField owner field => ⟨.unsupported, "static field access " ++ member owner field⟩
  | arrayLength => ⟨.unsupported, "array length of a kernel buffer"⟩
  | typeTest cls => ⟨.unsupported, "runtime type test against " ++ cls.text⟩
  | allocation cls => ⟨.unsupported, "object allocation of " ++ cls.text⟩
  | allocationLength =>
    ⟨.unsupported, "array allocation without a positive constant length"⟩
  | dynamicCall owner method =>
    ⟨.unsupported, "dynamically bound call site " ++ member owner method⟩
  | foreignReceiver method =>
    ⟨.unsupported, "call to " ++ method ++ " on another kernel instance"⟩
  | virtualCall owner method => ⟨.unsupported, "virtual dispatch to " ++ member owner method⟩
  | specialCall owner method =>
    ⟨.unsupported, "constructor or super call " ++ member owner method⟩
  | monitor => ⟨.unsupported, "monitor operation"⟩
  | exception => ⟨.unsupported, "exception control flow"⟩
  | multiArray => ⟨.notYetImplemented, "multi-dimensional array allocation"⟩
  | outside node method =>
    ⟨.invariant, "node " ++ toString node ++ " is outside the graph of `" ++ method ++ "`"⟩
  | parameterRange index method =>
    ⟨.invariant, "parameter " ++ toString index ++ " out of range for `" ++ method ++ "`"⟩
  | phiUnbound node => ⟨.invariant, "missing PHI temporary for node " ++ toString node⟩
  | phiWithoutValue phi source =>
    ⟨.invariant, "phi " ++ toString phi ++ " has no value for predecessor " ++ toString source⟩
  | controlAsValue node => ⟨.invariant, "control node " ++ toString node ++ " used as a value"⟩
  | arity expected node found =>
    ⟨.invariant, "expected exactly " ++ toString expected ++ " values for node " ++ toString node ++
      ", found " ++ toString found⟩
  | operandsMissing expected node found =>
    ⟨.invariant, "expected " ++ toString expected ++ " values on the stack for node " ++
      toString node ++ ", found " ++ toString found⟩
  | resultCount node found =>
    ⟨.invariant, "expected exactly 1 value after evaluating node " ++ toString node ++ ", found " ++
      toString found⟩
  | endless node => ⟨.invariant, "the operands of node " ++ toString node ++ " lead back to it"⟩
  | duplicateLabel label method =>
    ⟨.invariant, "duplicate block label " ++ label ++ " in `" ++ method ++ "`"⟩
  | misclosed construct innermost =>
    ⟨.invariant, construct.describe ++ " closed while " ++ describeInnermost innermost ++
      " is open"⟩
  | misplacedElse node innermost =>
    ⟨.invariant, "else of if " ++ toString node ++ " while " ++ describeInnermost innermost ++
      " is open"⟩
  | misplacedCase node innermost =>
    ⟨.invariant, "case of switch " ++ toString node ++ " while " ++ describeInnermost innermost ++
      " is open"⟩
  | unfinished method construct =>
    ⟨.invariant, "`" ++ method ++ "` ended with " ++ construct.describe ++ " still open"⟩
  | notReturn node => ⟨.invariant, "node " ++ toString node ++ " is not a return node"⟩
  | returnArity node found =>
    ⟨.invariant, "expected at most 1 value for return node " ++ toString node ++ ", found " ++
      toString found⟩
  | notChoice choice node =>
    ⟨.invariant, "node " ++ toString node ++ " is not a " ++ choice.word ++ " node"⟩
  | choiceArity choice node found =>
    ⟨.invariant, "expected exactly 1 value for " ++ choice.word ++ " node " ++ toString node ++
      ", found " ++ toString found⟩
  | leaveClosed label =>
    ⟨.invariant, "break to " ++ label ++ ", which is not an open block"⟩
  | againClosed label =>
    ⟨.invariant, "continue to " ++ label ++ ", which is not an open block"⟩
  | againNotLoop label => ⟨.invariant, "continue to " ++ label ++ ", which is not a loop"⟩

/-- The full message of a cause. -/
def message (e : Error) : String :=
  e.report.message

end Error

end KernelForge.Source
