import KernelForge.Bytes.LittleEndian
import KernelForge.Decimal.Layout

/-!
# Values of kernel fields

A field holds a number of one of four types. In shared memory every number lies in a cell of 64
bits, a narrow one in the low half; in a device buffer it takes as many bytes as its type is wide.
-/

namespace KernelForge.Launch

/-- The types of numbers that can be shared with a device. -/
inductive Element
  | int
  | long
  | float
  | double
deriving DecidableEq

namespace Element

/-- The kernel-language name. -/
def name : Element → String
  | int => "int"
  | long => "long"
  | float => "float"
  | double => "double"

/-- The name as diagnostics show it. -/
def title : Element → String
  | int => "Int"
  | long => "Long"
  | float => "Float"
  | double => "Double"

/-- The type of a kernel-language name. -/
def ofName? (text : String) : Option Element :=
  [int, long, float, double].find? (·.name == text)

/-- Bytes for each number in a device buffer. -/
def width : Element → Nat
  | int | float => 4
  | long | double => 8

end Element

/-- A number of one of the types. Floating-point numbers are given by their bits. -/
inductive Scalar
  | int (value : Int32)
  | long (value : Int64)
  | float (bits : UInt32)
  | double (bits : UInt64)
deriving DecidableEq

/-- The type of a number. -/
def Scalar.element : Scalar → Element
  | int _ => .int
  | long _ => .long
  | float _ => .float
  | double _ => .double

/-- The contents of the cell of a number. -/
def Scalar.toBits : Scalar → UInt64
  | int value => value.toUInt32.toUInt64
  | long value => value.toUInt64
  | float bits => bits.toUInt64
  | double bits => bits

/-- The number in a cell. Narrow types look at the low half only. -/
def Element.ofBits : Element → UInt64 → Scalar
  | int, bits => .int bits.toUInt32.toInt32
  | long, bits => .long bits.toInt64
  | float, bits => .float bits.toUInt32
  | double, bits => .double bits

/-- A number as a device buffer holds it. -/
def Scalar.toBytes (v : Scalar) : List UInt8 :=
  Bytes.ofNat v.element.width v.toBits.toNat

/-- A number as diagnostics show it. -/
def Scalar.describe : Scalar → String
  | int value => toString value.toInt
  | long value => toString value.toInt
  | float bits => Decimal.renderValue (Binary.decode Binary.single bits.toNat)
  | double bits => Decimal.renderValue (Binary.decode Binary.double bits.toNat)

end KernelForge.Launch
