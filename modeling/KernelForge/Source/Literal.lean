import KernelForge.Decimal.Layout
import KernelForge.Text.Quoted

/-!
# Literals of the kernel language

Constants are written so that reading them gives back the same value. The least integers have no
literal of their own, because the sign is not part of a literal, so they are written as a difference;
infinities and the value that is no number have names.
-/

namespace KernelForge.Source.Literal

/-- A 32-bit integer. -/
def int (value : Int32) : String :=
  if value = Int32.minValue then "(-2147483647 - 1)" else toString value.toInt

/-- A 64-bit integer. -/
def long (value : Int64) : String :=
  if value = Int64.minValue then "(-9223372036854775807L - 1L)" else toString value.toInt ++ "L"

/-- A 32-bit floating-point number, by its bits. -/
def float (bits : UInt32) : String :=
  match Binary.decode Binary.single bits.toNat with
  | .notANumber => "NAN"
  | .infinite negative => if negative then "(-INFINITY)" else "INFINITY"
  | value => Decimal.renderValue value ++ "f"

/-- A 64-bit floating-point number, by its bits. -/
def double (bits : UInt64) : String :=
  match Binary.decode Binary.double bits.toNat with
  | .notANumber => "((double)NAN)"
  | .infinite negative => if negative then "((double)(-INFINITY))" else "((double)INFINITY)"
  | value => Decimal.renderValue value

end KernelForge.Source.Literal
