import KernelForge.Kernel.Body
import KernelForge.Source.Expr
import KernelForge.Text.Identifier

/-!
# Lines of a function body

What the body of a generated function consists of. A line knows which node it was written for, so
that a run can be followed without reading text.
-/

namespace KernelForge.Source

/-- A declaration at the top of a function. -/
inductive Declaration
  | scalar (type : String) (temp : Temp)
  /-- A private array of constant length. -/
  | array (element : String) (temp : Temp) (length : Int32)

def Declaration.temp : Declaration → Temp
  | .scalar _ t => t
  | .array _ t _ => t

def Declaration.render : Declaration → String
  | .scalar type t => type ++ " " ++ t.name ++ ";"
  | .array element t length =>
    element ++ " " ++ t.name ++ "[" ++ toString length.toInt ++ "];"

/-- A line of a function body. -/
inductive Line
  /-- Declare a temporary and give it the value of a node. -/
  | define (node : NodeId) (type : String) (temp : Temp) (value : Expr)
  /-- Give the value of a node to a temporary that is declared at the top. -/
  | store (node : NodeId) (temp : Temp) (value : Expr)
  /-- Declare a temporary for a value on its way into a phi. -/
  | stage (type : String) (temp : Temp) (value : Expr)
  /-- Assign a phi. -/
  | feed (phi : NodeId) (temp : Temp) (value : Expr)
  /-- Run a node that has no value. -/
  | effect (node : NodeId) (value : Expr)
  | ret (value : Option Expr)
  | openBlock (block : Block)
  | openIf (condition : Expr)
  | otherwise
  | openSwitch (value : Expr)
  | openCase (key : Option Int32)
  /-- The end of a case. -/
  | endCase
  | close
  /-- The place where a jump out of a block lands. -/
  | exitMark (label : String)
  | gotoExit (label : String)
  | gotoStart (label : String)

/-- The label that marks the start of a block. -/
def startLabel (label : String) : String :=
  Identifier.ofName label

/-- The label that marks the place after a block. -/
def exitLabel (label : String) : String :=
  Identifier.ofName label ++ "_exit"

/-- The text of a line, without indentation. -/
def Line.render : Line → String
  | .define _ type t value | .stage type t value =>
    type ++ " " ++ t.name ++ " = " ++ value.render ++ ";"
  | .store _ t value | .feed _ t value => t.name ++ " = " ++ value.render ++ ";"
  | .effect _ value => value.render ++ ";"
  | .ret none => "return;"
  | .ret (some value) => "return " ++ value.render ++ ";"
  | .openBlock ⟨label, false⟩ => startLabel label ++ ": \x7b"
  | .openBlock ⟨label, true⟩ => startLabel label ++ ": while (true) \x7b"
  | .openIf condition => "if (" ++ condition.condition ++ ") \x7b"
  | .otherwise => "\x7d else \x7b"
  | .openSwitch value => "switch (" ++ value.condition ++ ") \x7b"
  | .openCase (some key) => "case " ++ Literal.int key ++ ": \x7b"
  | .openCase none => "default: \x7b"
  | .endCase => "break;"
  | .close => "\x7d"
  | .exitMark label => exitLabel label ++ ": ;"
  | .gotoExit label => "goto " ++ exitLabel label ++ ";"
  | .gotoStart label => "goto " ++ startLabel label ++ ";"

/-- A line at an indentation level. -/
structure Row where
  indent : Nat
  line : Line

/-- Blanks for an indentation level, four for each. -/
def indentation (level : Nat) : String :=
  String.ofList (List.replicate (4 * level) ' ')

/-- The text of a row, with its line end. -/
def Row.render (row : Row) : String :=
  indentation row.indent ++ row.line.render ++ "\n"

/-- The text of rows, one after the other. -/
def renderRows (rows : List Row) : String :=
  String.join (rows.map Row.render)

end KernelForge.Source
