import KernelForge.Kernel.Node
import KernelForge.Source.Literal

/-!
# Expressions of the kernel language

What a node becomes in generated source. Operators are always written in parentheses, so that a
printed expression can stand as an operand of any other.
-/

namespace KernelForge.Source

/-- What a temporary is for: a value computed once, or a value that depends on the way taken. -/
inductive TempKind
  | var
  | phi
deriving DecidableEq

/-- A generated variable. One count serves both kinds, so that no index occurs twice. -/
structure Temp where
  kind : TempKind
  index : Nat
deriving DecidableEq

/-- The name of a generated variable. -/
def Temp.name (t : Temp) : String :=
  match t.kind with
  | .var => "var" ++ toString t.index
  | .phi => "phi" ++ toString t.index

/-- An expression. -/
inductive Expr
  | temp (t : Temp)
  /-- A parameter or a kernel argument, by its identifier. -/
  | name (identifier : String)
  | int (value : Int32)
  | long (value : Int64)
  | float (bits : UInt32)
  | double (bits : UInt64)
  | string (text : String)
  | negate (value : Expr)
  | binary (op : BinaryOp) (lhs rhs : Expr)
  /-- A right shift that fills with zeros, of a 64-bit value if `wide` holds and else of a 32-bit
  one. -/
  | shiftUnsigned (wide : Bool) (lhs rhs : Expr)
  | compare (op : CompareOp) (lhs rhs : Expr)
  | threeWay (mode : ThreeWay) (lhs rhs : Expr)
  | cast (type : String) (value : Expr)
  | member (object : Expr) (identifier : String)
  | element (array index : Expr)
  | assign (target value : Expr)
  | call (function : String) (args : List Expr)
  /-- A vector literal. -/
  | vector (type : String) (args : List Expr)

namespace Expr

/-- A three-way comparison of two printed operands. -/
def threeWayText (mode : ThreeWay) (l r : String) : String :=
  match mode with
  | .integral => "((" ++ l ++ " > " ++ r ++ ") ? 1 : ((" ++ l ++ " < " ++ r ++ ") ? -1 : 0))"
  | .nanBelow => "((" ++ l ++ " > " ++ r ++ ") ? 1 : ((" ++ l ++ " == " ++ r ++ ") ? 0 : -1))"
  | .nanAbove => "((" ++ l ++ " < " ++ r ++ ") ? -1 : ((" ++ l ++ " == " ++ r ++ ") ? 0 : 1))"

mutual

/-- The text of an expression. -/
def render : Expr → String
  | temp t => t.name
  | name identifier => identifier
  | int value => Literal.int value
  | long value => Literal.long value
  | float bits => Literal.float bits
  | double bits => Literal.double bits
  | string text => Quoted.literal text
  | negate value => "(-" ++ value.render ++ ")"
  | binary op lhs rhs => "(" ++ lhs.render ++ " " ++ op.symbol ++ " " ++ rhs.render ++ ")"
  | shiftUnsigned false lhs rhs => "((int)((uint)" ++ lhs.render ++ " >> " ++ rhs.render ++ "))"
  | shiftUnsigned true lhs rhs => "((long)((ulong)" ++ lhs.render ++ " >> " ++ rhs.render ++ "))"
  | compare op lhs rhs => "(" ++ lhs.render ++ " " ++ op.symbol ++ " " ++ rhs.render ++ ")"
  | threeWay mode lhs rhs => threeWayText mode lhs.render rhs.render
  | cast type value => "((" ++ type ++ ")" ++ value.render ++ ")"
  | member object identifier => object.render ++ "." ++ identifier
  | element array index => array.render ++ "[" ++ index.render ++ "]"
  | assign target value => target.render ++ " = " ++ value.render
  | call function args => function ++ "(" ++ ", ".intercalate (renderAll args) ++ ")"
  | vector type args => "(" ++ type ++ ")(" ++ ", ".intercalate (renderAll args) ++ ")"

/-- The texts of several expressions. -/
def renderAll : List Expr → List String
  | [] => []
  | e :: rest => e.render :: renderAll rest

end

end Expr

/-! ### Conditions -/

/-- Whether every parenthesis that closes was opened, and everything opened is closed, given that
`depth` are open at the start. -/
def balanced (depth : Nat) : List Char → Bool
  | [] => depth == 0
  | '(' :: rest => balanced (depth + 1) rest
  | ')' :: rest => depth != 0 && balanced (depth - 1) rest
  | _ :: rest => balanced depth rest

/-- Remove a pair of parentheses that encloses the whole text. -/
def stripParens (cs : List Char) : List Char :=
  match cs with
  | '(' :: rest =>
    if rest.getLast? == some ')' && balanced 0 rest.dropLast then rest.dropLast else cs
  | _ => cs

/-- An expression as the condition of a branch, which brings parentheses of its own. -/
def Expr.condition (e : Expr) : String :=
  String.ofList (stripParens e.render.toList)

end KernelForge.Source
